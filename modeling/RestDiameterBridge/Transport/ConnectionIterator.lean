import RestDiameterBridge.Lib.Iteration
import RestDiameterBridge.Transport.Connection

/-!
# RestDiameterBridge.Transport.ConnectionIterator

The lazy traversal of a tree of containers (`ConnectionIterator` in
`src/transport/connection_list.rs` and the `iter` of each container): `send`, `close` and
`is_closed` run through it.

An iterator keeps the list of one container and, while it is inside a child container,
the iterator of that child. `Expands c s xs s'` says what a child contributes;
`drains_of_expands` is the invariant of the loop: an iterator about to look at a child
yields the contributions of that child and of those after it, in turn.
-/

namespace RestDiameterBridge

open Connection Iteration

/-- Where an iteration over the list of one container stands. -/
structure ConnectionIterator where
  connections : List Connection
  index : Nat
  subIter : Option ConnectionIterator
  triedTimes : Nat

namespace ConnectionIterator

/-- A new iterator over a list. -/
def new (connections : List Connection) (index : Nat) : ConnectionIterator :=
  { connections, index, subIter := none, triedTimes := 0 }

/-- The child at the index, and the index after it. -/
def getNext (connections : List Connection) (index : Nat) : Option (Connection × Nat) :=
  let n := connections.length
  if n = 0 then none else (connections[index % n]?).map fun conn => (conn, (index + 1) % n)

theorem mem_of_getNext {connections : List Connection} {index index' : Nat} {c : Connection}
    (h : getNext connections index = some (c, index')) : c ∈ connections := by
  by_cases hn : connections.length = 0
  · rw [getNext, if_pos hn] at h
    cases h
  · rw [getNext, if_neg hn] at h
    obtain ⟨c', hc, h⟩ := Option.map_eq_some_iff.mp h
    obtain ⟨rfl, -⟩ := Prod.mk.inj h
    exact List.mem_of_getElem? hc

/-- Count the current child as tried and stand at `index`. -/
def tried (it : ConnectionIterator) (index : Nat) : ConnectionIterator :=
  { it with index, subIter := none, triedTimes := it.triedTimes + 1 }

/-- The work the children after the one being tried can still cause. -/
def workAfter (connections : List Connection) (triedTimes : Nat) : Nat :=
  (connections.length - triedTimes - 1) * (2 + weightSum connections)

theorem workAfter_succ {connections : List Connection} {triedTimes : Nat}
    (h : ¬connections.length ≤ triedTimes + 1) :
    workAfter connections triedTimes =
      workAfter connections (triedTimes + 1) + (2 + weightSum connections) := by
  have : connections.length - triedTimes - 1 = connections.length - (triedTimes + 1) - 1 + 1 := by
    omega
  rw [workAfter, workAfter, this, Nat.succ_mul]

/-- The work left: what is left of the child being tried, and the children after it. -/
def work : ConnectionIterator → Nat
  | ⟨connections, _, subIter, triedTimes⟩ =>
      workAfter connections triedTimes + 2 +
        match subIter with
        | none => weightSum connections + 1
        | some sub => sub.work

end ConnectionIterator

/-- `iter` of a connection: its own iterator and what drawing the start index changes.
There is none for a leaf and for an empty container. -/
def Connection.iter (s : Balancers) : Connection → Option ConnectionIterator × Balancers
  | .leaf _ => (none, s)
  | .container .roundRobin self connections =>
      let n := connections.length
      let (index, s) := s.fetchAdd self.addr
      if n = 0 then (none, s) else (some (.new connections (index % n)), s)
  | .container .failOver _ connections =>
      if connections.length = 0 then (none, s) else (some (.new connections 0), s)
  | .container .random _ connections =>
      let n := connections.length
      if n = 0 then (none, s)
      else
        let (index, s) := s.randomRange n
        (some (.new connections index), s)

/-- The iterator of a container starts over the container's own list. -/
theorem Connection.iter_some {s s' : Balancers} {c : Connection} {it : ConnectionIterator}
    (h : c.iter s = (some it, s')) :
    ∃ kind self connections index,
      c = .container kind self connections ∧ it = .new connections index := by
  cases c with
  | leaf self => cases h
  | container kind self connections =>
    cases kind <;> simp only [Connection.iter] at h <;> split at h <;>
      first
      | cases h; done
      | exact ⟨_, _, _, _, rfl, (Option.some.inj (Prod.mk.inj h).1).symm⟩

/-- Opening a container is less work than its weight. -/
theorem Connection.work_iter_lt {s s' : Balancers} {c : Connection} {it : ConnectionIterator}
    (h : c.iter s = (some it, s')) : it.work < c.weight := by
  obtain ⟨kind, self, connections, index, rfl, rfl⟩ := c.iter_some h
  simp only [ConnectionIterator.new, ConnectionIterator.work, ConnectionIterator.workAfter,
    Connection.weight]
  cases connections with
  | nil => simp [weightSum]
  | cons c cs =>
    have : ((c :: cs).length - 0 - 1) * (2 + weightSum (c :: cs)) + (2 + weightSum (c :: cs)) =
        (c :: cs).length * (2 + weightSum (c :: cs)) := (Nat.succ_mul _ _).symm
    omega

namespace ConnectionIterator

mutual
/-- The next connection. -/
def next (it : ConnectionIterator) (s : Balancers) :
    Option Connection × ConnectionIterator × Balancers :=
  let n := it.connections.length
  if _h : n = 0 ∨ n ≤ it.triedTimes then (none, it, s)
  else
    match _hs : it.subIter with
    | some subIter =>
        match subIter.next s with
        | (some subConn, subIter', s') => (some subConn, { it with subIter := some subIter' }, s')
        | (none, _, s') =>
            -- the child is exhausted: go on to the one after it
            let it' := it.tried it.index
            if n ≤ it'.triedTimes then (none, it', s') else it'.loop s'
    | none => it.loop s
termination_by (it.work, 1)
decreasing_by
  all_goals
    obtain ⟨connections, index, subIter, triedTimes⟩ := it
    subst _hs
    simp only [tried, work, Prod.lex_def]
  · omega
  · have := workAfter_succ ‹¬connections.length ≤ triedTimes + 1›
    omega
  · simp
/-- The loop of `next`, between two children. -/
def loop (it : ConnectionIterator) (s : Balancers) :
    Option Connection × ConnectionIterator × Balancers :=
  let n := it.connections.length
  match _hg : getNext it.connections it.index with
  | none => (none, it, s)
  | some (conn, index) =>
      if conn.isContainer then
        match _hi : conn.iter s with
        | (some subIter, s') =>
            match subIter.next s' with
            | (some subConn, subIter', s'') =>
                (some subConn, { it with index, subIter := some subIter' }, s'')
            | (none, _, s'') =>
                let it' := it.tried index
                if n ≤ it'.triedTimes then (none, it', s'') else it'.loop s''
        | (none, s') =>
            let it' := it.tried index
            if n ≤ it'.triedTimes then (none, it', s') else it'.loop s'
      else (some conn, { it with index, triedTimes := it.triedTimes + 1 }, s)
termination_by ({ it with subIter := none }.work, 0)
decreasing_by
  all_goals
    obtain ⟨connections, index, subIter, triedTimes⟩ := it
    simp only [tried, work, Prod.lex_def]
  · have := conn.work_iter_lt _hi
    have : conn.weight ≤ weightSum connections := weight_le_weightSum (mem_of_getNext _hg)
    omega
  all_goals
    have := workAfter_succ ‹¬connections.length ≤ triedTimes + 1›
    omega
end

/-! ### One step of the iterator -/

section
variable {it sub sub' : ConnectionIterator} {s s' s'' : Balancers} {c conn : Connection}
  {index : Nat}

theorem next_of_done (h : it.connections.length = 0 ∨ it.connections.length ≤ it.triedTimes) :
    it.next s = (none, it, s) := by
  rw [next, dif_pos h]

theorem next_eq_loop (hlt : it.triedTimes < it.connections.length) (hs : it.subIter = none) :
    it.next s = it.loop s := by
  rw [next, dif_neg (by omega)]
  split
  · simp_all
  · rfl

theorem next_of_sub_some (hlt : it.triedTimes < it.connections.length)
    (hs : it.subIter = some sub) (hn : sub.next s = (some c, sub', s')) :
    it.next s = (some c, { it with subIter := some sub' }, s') := by
  rw [next, dif_neg (by omega)]
  split
  · rename_i subIter h
    obtain rfl := Option.some.inj (hs.symm.trans h)
    rw [hn]
  · simp_all

/-- What `next` does once a child is done: stop after the last one, look at the next one
otherwise. -/
theorem next_tried :
    (if it.connections.length ≤ (it.tried index).triedTimes then (none, it.tried index, s)
      else (it.tried index).loop s) = (it.tried index).next s := by
  split
  · rename_i hle
    rw [next_of_done (.inr hle)]
  · rename_i hlt'
    rw [next_eq_loop (Nat.not_le.mp hlt') rfl]

theorem next_of_sub_none (hlt : it.triedTimes < it.connections.length)
    (hs : it.subIter = some sub) (hn : sub.next s = (none, sub', s')) :
    it.next s = (it.tried it.index).next s' := by
  rw [next, dif_neg (by omega)]
  split
  · rename_i subIter h
    obtain rfl := Option.some.inj (hs.symm.trans h)
    rw [hn]
    exact next_tried
  · simp_all

theorem loop_of_leaf (hg : getNext it.connections it.index = some (c, index))
    (hc : c.isContainer = false) :
    it.loop s = (some c, { it with index, triedTimes := it.triedTimes + 1 }, s) := by
  rw [loop]
  split
  · simp_all
  · rename_i hg'
    obtain ⟨rfl, rfl⟩ := Prod.mk.inj (Option.some.inj (hg.symm.trans hg'))
    rw [if_neg (by simp [hc])]

theorem loop_of_empty (hg : getNext it.connections it.index = some (c, index))
    (hc : c.isContainer = true) (hi : c.iter s = (none, s')) :
    it.loop s = (it.tried index).next s' := by
  rw [loop]
  split
  · simp_all
  · rename_i hg'
    obtain ⟨rfl, rfl⟩ := Prod.mk.inj (Option.some.inj (hg.symm.trans hg'))
    rw [if_pos hc]
    split
    · simp_all
    · rename_i hi'
      obtain ⟨-, rfl⟩ := Prod.mk.inj (hi.symm.trans hi')
      exact next_tried

theorem loop_of_sub_some (hg : getNext it.connections it.index = some (conn, index))
    (hc : conn.isContainer = true) (hi : conn.iter s = (some sub, s'))
    (hn : sub.next s' = (some c, sub', s'')) :
    it.loop s = (some c, { it with index, subIter := some sub' }, s'') := by
  rw [loop]
  split
  · simp_all
  · rename_i hg'
    obtain ⟨rfl, rfl⟩ := Prod.mk.inj (Option.some.inj (hg.symm.trans hg'))
    rw [if_pos hc]
    split
    · rename_i hi'
      obtain ⟨hsub, rfl⟩ := Prod.mk.inj (hi.symm.trans hi')
      obtain rfl := Option.some.inj hsub
      rw [hn]
    · simp_all

theorem loop_of_sub_none (hg : getNext it.connections it.index = some (conn, index))
    (hc : conn.isContainer = true) (hi : conn.iter s = (some sub, s'))
    (hn : sub.next s' = (none, sub', s'')) : it.loop s = (it.tried index).next s'' := by
  rw [loop]
  split
  · simp_all
  · rename_i hg'
    obtain ⟨rfl, rfl⟩ := Prod.mk.inj (Option.some.inj (hg.symm.trans hg'))
    rw [if_pos hc]
    split
    · rename_i hi'
      obtain ⟨hsub, rfl⟩ := Prod.mk.inj (hi.symm.trans hi')
      obtain rfl := Option.some.inj hsub
      rw [hn]
      exact next_tried
    · simp_all

end

/-! ### What an iteration yields -/

/-- `next` on an iterator together with the containers' state. -/
def nextState (st : ConnectionIterator × Balancers) :
    Option Connection × ConnectionIterator × Balancers :=
  st.1.next st.2

/-- What one child contributes to the iteration over its container. -/
inductive Expands : Connection → Balancers → List Connection → Balancers → Prop
  /-- A leaf, itself. -/
  | leaf {c : Connection} {s : Balancers} : c.isContainer = false → Expands c s [c] s
  /-- A container without an iterator, nothing. -/
  | empty {c : Connection} {s s' : Balancers} :
      c.isContainer = true → c.iter s = (none, s') → Expands c s [] s'
  /-- Any other container, what its iterator yields. -/
  | nested {c : Connection} {s s₁ s' : Balancers} {it it' : ConnectionIterator}
      {xs : List Connection} :
      c.isContainer = true → c.iter s = (some it, s₁) →
      Drains nextState (it, s₁) xs (it', s') → Expands c s xs s'

/-- What the children contribute one after another. -/
inductive ExpandsList : List Connection → Balancers → List Connection → Balancers → Prop
  | nil {s : Balancers} : ExpandsList [] s [] s
  | cons {c : Connection} {cs xs ys : List Connection} {s s₁ s' : Balancers} :
      Expands c s xs s₁ → ExpandsList cs s₁ ys s' → ExpandsList (c :: cs) s (xs ++ ys) s'

section
variable {it : ConnectionIterator} {s s₁ s' : Balancers} {c : Connection}
  {cs xs ys : List Connection} {index start k : Nat} {st : ConnectionIterator × Balancers}

/-- An iterator inside a child yields the rest of the child's sequence, then what follows
the child. -/
theorem drains_sub (it : ConnectionIterator) {sub sub' : ConnectionIterator}
    (hlt : it.triedTimes < it.connections.length)
    (hd : Drains nextState (sub, s) xs (sub', s₁))
    (hrest : Drains nextState (it.tried it.index, s₁) ys st) :
    Drains nextState ({ it with subIter := some sub }, s) (xs ++ ys) st := by
  let embed := fun t : ConnectionIterator × Balancers =>
    ({ it with subIter := some t.1 }, t.2)
  have hsome : ∀ {t t' : ConnectionIterator × Balancers} {a : Connection},
      nextState t = (some a, t') → nextState (embed t) = (some a, embed t') :=
    fun hn => next_of_sub_some hlt rfl hn
  have hnone : ∀ {u : ConnectionIterator × Balancers}, nextState u = (none, sub', s₁) →
      nextState (embed u) = nextState (it.tried it.index, s₁) :=
    fun hn => next_of_sub_none hlt rfl hn
  exact Drains.append_of_exhausted embed hsome hd fun hn => .congr (hnone hn) hrest

/-- An iterator about to look at a child yields what the child contributes, then what
follows it. -/
theorem drains_child (hlt : it.triedTimes < it.connections.length) (hs : it.subIter = none)
    (hg : getNext it.connections it.index = some (c, index)) (hc : Expands c s xs s₁)
    (hrest : Drains nextState (it.tried index, s₁) ys st) :
    Drains nextState (it, s) (xs ++ ys) st := by
  cases hc with
  | leaf hleaf =>
    have hnext : it.next s = (some c, it.tried index, s) := by
      rw [next_eq_loop hlt hs, loop_of_leaf hg hleaf, tried, ← hs]
    exact .more hnext hrest
  | empty hcont hi =>
    have hnext : nextState (it, s) = nextState (it.tried index, s₁) := by
      show it.next s = (it.tried index).next s₁
      rw [next_eq_loop hlt hs, loop_of_empty hg hcont hi]
    exact .congr hnext hrest
  | nested hcont hi hd =>
    cases hd with
    | done hn =>
      have hnext : nextState (it, s) = nextState (it.tried index, s₁) := by
        show it.next s = (it.tried index).next s₁
        rw [next_eq_loop hlt hs, loop_of_sub_none hg hcont hi hn]
      exact .congr hnext hrest
    | more hn hd =>
      refine .more ((next_eq_loop hlt hs).trans (loop_of_sub_some hg hcont hi hn)) ?_
      exact drains_sub { it with index } hlt hd hrest

theorem getNext_of_rotation {connections : List Connection}
    (hk : (rotation connections start)[k]? = some c)
    (hindex : index % connections.length = (start + k) % connections.length) :
    getNext connections index = some (c, (index + 1) % connections.length) := by
  obtain ⟨hlt, hget⟩ := List.getElem?_eq_some_iff.mp hk
  have hlen : k < connections.length := by simpa [rotation] using hlt
  have hmod : (start + k) % connections.length < connections.length :=
    Nat.mod_lt _ (Nat.zero_lt_of_lt hlen)
  have hc : connections[index % connections.length]? = some c := by
    rw [hindex, List.getElem?_eq_getElem hmod, ← hget]
    simp [rotation]
  rw [getNext, if_neg (by omega), hc]
  rfl

/-- The loop invariant: with the first `k` children of the rotation done, the iterator
yields what the others contribute. -/
theorem drains_of_expands {connections : List Connection} (h : ExpandsList cs s xs s')
    (hcs : cs = (rotation connections start).drop k)
    (hindex : index % connections.length = (start + k) % connections.length) :
    ∃ it', Drains nextState (⟨connections, index, none, k⟩, s) xs (it', s') := by
  induction h generalizing k index with
  | nil =>
    have hle : connections.length ≤ k := by
      have := (List.drop_eq_nil_iff.mp hcs.symm)
      simpa [rotation] using this
    exact ⟨_, .done (next_of_done (.inr hle))⟩
  | @cons c cs xs ys s s₁ s' hc _ ih =>
    have hk : (rotation connections start)[k]? = some c := by
      have := congrArg (·[0]?) hcs
      simpa using this.symm
    have hrest : cs = (rotation connections start).drop (k + 1) := by
      have := congrArg List.tail hcs
      simpa using this
    have hlt : k < connections.length := by
      simpa [rotation] using (List.getElem?_eq_some_iff.mp hk).1
    have hindex' : (index + 1) % connections.length % connections.length =
        (start + (k + 1)) % connections.length := by
      rw [Nat.mod_mod, Nat.add_mod, hindex, ← Nat.add_mod, Nat.add_assoc]
    obtain ⟨it', hd⟩ := ih hrest hindex'
    exact ⟨it', drains_child hlt rfl
      (getNext_of_rotation hk hindex) hc hd⟩

/-- A new iterator yields what the children contribute, from the start index on. -/
theorem drains_new {connections : List Connection} (start : Nat)
    (h : ExpandsList (rotation connections start) s xs s') :
    ∃ it', Drains nextState (.new connections start, s) xs (it', s') :=
  drains_of_expands h (by simp) rfl

end

end ConnectionIterator

open ConnectionIterator

/-! ### Unused failover trees -/

/-- What iterating over a connection yields: the elements of its iterator, none without
one. -/
def IterYields (s : Balancers) (c : Connection) (xs : List Connection) : Prop :=
  ((c.iter s).1 = none ∧ xs = []) ∨
    ∃ it st, (c.iter s).1 = some it ∧ Drains nextState (it, (c.iter s).2) xs st

theorem IterYields.unique {s : Balancers} {c : Connection} {xs ys : List Connection}
    (hx : IterYields s c xs) (hy : IterYields s c ys) : xs = ys := by
  rcases hx with ⟨hn, rfl⟩ | ⟨it, st, hi, hx⟩ <;> rcases hy with ⟨hn', rfl⟩ | ⟨it', st', hi', hy⟩
  · rfl
  · rw [hn] at hi'
    cases hi'
  · rw [hi] at hn'
    cases hn'
  · obtain rfl := Option.some.inj (hi.symm.trans hi')
    exact (hx.unique hy).1

/-- Inside an iteration an unused failover tree contributes its leaves, left to right. -/
theorem expands_of_fresh {s : Balancers} {c : Connection} (h : c.FreshFailOver s) :
    Expands c s c.leaves s := by
  induction h with
  | leaf self => exact .leaf rfl
  | container self children _ _ ih =>
    have hlist : ∀ cs, (∀ c ∈ cs, Expands c s c.leaves s) → ExpandsList cs s (leavesList cs) s := by
      intro cs hcs
      induction cs with
      | nil => exact .nil
      | cons c cs ihcs =>
        exact .cons (hcs c (by simp)) (ihcs fun d hd => hcs d (by simp [hd]))
    cases children with
    | nil => exact .empty rfl rfl
    | cons c cs =>
      obtain ⟨it', hd⟩ := drains_new 0 (by rw [rotation_zero]; exact hlist _ ih)
      exact .nested rfl rfl hd

theorem iterYields_of_expands {s s' : Balancers} {c : Connection} {xs : List Connection}
    (hc : c.isContainer = true) (h : Expands c s xs s') : IterYields s c xs := by
  cases h with
  | leaf hleaf => exact absurd (hc.symm.trans hleaf) (by simp)
  | empty _ hi => exact .inl ⟨by rw [hi], rfl⟩
  | nested _ hi hd => exact .inr ⟨_, _, by rw [hi], by rw [hi]; exact hd⟩

/-- Iterating over an unused failover container yields its leaves, left to right. -/
theorem iterYields_leaves {s : Balancers} {self : Handle} {connections : List Connection}
    (h : (container .failOver self connections).FreshFailOver s) :
    IterYields s (container .failOver self connections) (leavesList connections) :=
  iterYields_of_expands rfl (expands_of_fresh h)

/-- On an unused failover tree the iterator yields the leaves left to right, and the
attempts of a request are in the same order exactly if that sequence reads the same from
both ends. -/
theorem getUnderlyingConnections_eq_iter_iff (s : Balancers) (self : Handle)
    (connections : List Connection)
    (h : (container .failOver self connections).FreshFailOver s) :
    IterYields s (container .failOver self connections) (leavesList connections) ∧
      (IterYields s (container .failOver self connections)
          (getUnderlyingConnections s (container .failOver self connections)).1 ↔
        leavesList connections = (leavesList connections).reverse) := by
  have hyields := iterYields_leaves h
  refine ⟨hyields, ?_⟩
  rw [getUnderlyingConnections_of_fresh h]
  constructor
  · intro hunder
    exact hyields.unique hunder
  · intro heq
    show IterYields s _ (leavesList connections).reverse
    rwa [← heq]

/-- A container's state before any use: all indices 0. -/
def unused : Balancers := { index := fun _ => 0, draws := fun _ => 0 }

/-- A primary and a backup under failover. -/
def primaryBackup : List Connection :=
  [leaf ⟨1, "primary:3868", "primary", "realm"⟩, leaf ⟨2, "backup:3868", "backup", "realm"⟩]

theorem primaryBackup_fresh (self : Handle) :
    (container .failOver self primaryBackup).FreshFailOver unused := by
  refine .container self _ rfl fun c hc => ?_
  simp only [primaryBackup, List.mem_cons, List.not_mem_nil, or_false] at hc
  rcases hc with rfl | rfl <;> exact .leaf _

/-- A group that ends with the connection it begins with is tried in the order of the
iterator. -/
theorem getUnderlyingConnections_eq_iter_iff_sample :
    IterYields unused
      (container .failOver ⟨0, "failover-1", "h", "r"⟩
        (primaryBackup ++ [leaf ⟨1, "primary:3868", "primary", "realm"⟩]))
      (getUnderlyingConnections unused (container .failOver ⟨0, "failover-1", "h", "r"⟩
        (primaryBackup ++ [leaf ⟨1, "primary:3868", "primary", "realm"⟩]))).1 := by
  refine (getUnderlyingConnections_eq_iter_iff unused ⟨0, "failover-1", "h", "r"⟩
    (primaryBackup ++ [leaf ⟨1, "primary:3868", "primary", "realm"⟩])
    (.container _ _ rfl fun c hc => ?_)).2.mpr rfl
  simp only [primaryBackup, List.cons_append, List.nil_append, List.mem_cons, List.not_mem_nil,
    or_false] at hc
  rcases hc with rfl | rfl | rfl <;> exact .leaf _

/-- With a primary and a backup the backup is attempted first. -/
theorem getUnderlyingConnections_primaryBackup :
    (getUnderlyingConnections unused
        (container .failOver ⟨0, "failover-1", "h", "r"⟩ primaryBackup)).1 =
        primaryBackup.reverse ∧
      ¬IterYields unused (container .failOver ⟨0, "failover-1", "h", "r"⟩ primaryBackup)
        (getUnderlyingConnections unused
          (container .failOver ⟨0, "failover-1", "h", "r"⟩ primaryBackup)).1 := by
  have hfresh := primaryBackup_fresh ⟨0, "failover-1", "h", "r"⟩
  rw [getUnderlyingConnections_of_fresh hfresh]
  refine ⟨rfl, fun h => ?_⟩
  have haddrs := congrArg (List.map fun c => c.self.addr) ((iterYields_leaves hfresh).unique h)
  exact absurd haddrs (by decide)

end RestDiameterBridge
