import RestDiameterBridge.Transport.ConnectionIterator

/-!
# RestDiameterBridge.Transport.Traversal

Iterating over any tree of containers terminates and yields every leaf once, child after
child (`drains_rotation`); afterwards the iterator keeps returning nothing.

`next_cases` says once what a call of `next` can do. From it come the facts that hold of
single calls: an iterator yields leaves only, and every yield uses up work.
-/

namespace RestDiameterBridge

open Connection Iteration

namespace ConnectionIterator

/-- Every child was tried. -/
def Exhausted (it : ConnectionIterator) : Prop :=
  it.connections.length = 0 ∨ it.connections.length ≤ it.triedTimes

theorem next_of_exhausted {it : ConnectionIterator} (h : it.Exhausted) (s : Balancers) :
    it.next s = (none, it, s) :=
  next_of_done h

/-- The child at the index of an iterator that is not exhausted. -/
theorem exists_getNext {it : ConnectionIterator}
    (hlt : it.triedTimes < it.connections.length) :
    ∃ c index, getNext it.connections it.index = some (c, index) := by
  have hn : it.connections.length ≠ 0 := by omega
  have hmod : it.index % it.connections.length < it.connections.length :=
    Nat.mod_lt _ (Nat.zero_lt_of_lt hlt)
  rw [getNext, if_neg hn, List.getElem?_eq_getElem hmod]
  exact ⟨_, _, rfl⟩

/-- What a call of `next` does: nothing on an exhausted iterator; it yields a child, or
what the iterator inside a child yields; or it is done with a child and goes on with the
one after it. -/
inductive Next (it : ConnectionIterator) (s : Balancers) :
    Option Connection × ConnectionIterator × Balancers → Prop
  | exhausted : it.Exhausted → Next it s (none, it, s)
  | leaf {c : Connection} {index : Nat} :
      it.triedTimes < it.connections.length → it.subIter = none → c ∈ it.connections →
      c.isContainer = false →
      Next it s (some c, { it with index, triedTimes := it.triedTimes + 1 }, s)
  | enter {child c : Connection} {sub sub' : ConnectionIterator} {s₁ s' : Balancers}
      {index : Nat} :
      it.triedTimes < it.connections.length → it.subIter = none → child ∈ it.connections →
      child.iter s = (some sub, s₁) →
      sub.next s₁ = (some c, sub', s') →
      Next it s (some c, { it with index, subIter := some sub' }, s')
  | within {c : Connection} {sub sub' : ConnectionIterator} {s' : Balancers} :
      it.subIter = some sub → sub.next s = (some c, sub', s') →
      Next it s (some c, { it with subIter := some sub' }, s')
  | onward {index : Nat} {s₁ : Balancers} :
      it.triedTimes < it.connections.length → Next it s ((it.tried index).next s₁)

theorem next_cases (it : ConnectionIterator) (s : Balancers) : Next it s (it.next s) := by
  by_cases hdone : it.Exhausted
  · rw [next_of_exhausted hdone]
    exact .exhausted hdone
  have hlt : it.triedTimes < it.connections.length := by
    rw [Exhausted] at hdone
    omega
  cases hs : it.subIter with
  | some sub =>
    rcases hn : sub.next s with ⟨_ | c, sub', s'⟩
    · rw [next_of_sub_none hlt hs hn]
      exact .onward hlt
    · rw [next_of_sub_some hlt hs hn]
      exact .within hs hn
  | none =>
    obtain ⟨child, index, hg⟩ := exists_getNext hlt
    have hmem := mem_of_getNext hg
    rw [next_eq_loop hlt hs]
    cases hc : child.isContainer with
    | false =>
      rw [loop_of_leaf hg hc]
      exact .leaf hlt hs hmem hc
    | true =>
      rcases hi : child.iter s with ⟨_ | sub, s₁⟩
      · rw [loop_of_empty hg hc hi]
        exact .onward hlt
      · rcases hn : sub.next s₁ with ⟨_ | c, sub', s'⟩
        · rw [loop_of_sub_none hg hc hi hn]
          exact .onward hlt
        · rw [loop_of_sub_some hg hc hi hn]
          exact .enter hlt hs hmem hi hn

/-! ### What single calls keep -/

/-- Bounds the connections still to be yielded. -/
def toYield : ConnectionIterator → Nat
  | ⟨connections, _, none, triedTimes⟩ =>
      (connections.length - triedTimes) * (2 + weightSum connections)
  | ⟨connections, _, some sub, triedTimes⟩ =>
      (connections.length - triedTimes - 1) * (2 + weightSum connections) + sub.toYield + 1

section
variable {it it' sub : ConnectionIterator} {s s' : Balancers} {c : Connection}

theorem toYield_of_none (it : ConnectionIterator) (hs : it.subIter = none) :
    it.toYield = (it.connections.length - it.triedTimes) * (2 + weightSum it.connections) := by
  obtain ⟨connections, index, subIter, triedTimes⟩ := it
  subst hs
  rw [toYield]

theorem toYield_of_some (hs : it.subIter = some sub) :
    it.toYield =
      (it.connections.length - it.triedTimes - 1) * (2 + weightSum it.connections) +
        sub.toYield + 1 := by
  obtain ⟨connections, index, subIter, triedTimes⟩ := it
  subst hs
  rw [toYield]

/-- What the child being tried may use up. -/
theorem toYield_after (hlt : it.triedTimes < it.connections.length) :
    (it.connections.length - it.triedTimes) * (2 + weightSum it.connections) =
      (it.connections.length - it.triedTimes - 1) * (2 + weightSum it.connections) +
        (2 + weightSum it.connections) := by
  rw [← Nat.succ_mul]
  congr 1
  omega

theorem toYield_tried_lt (index : Nat) (hlt : it.triedTimes < it.connections.length) :
    (it.tried index).toYield < it.toYield := by
  have hafter := toYield_after hlt
  rw [toYield_of_none (it.tried index) rfl]
  show (it.connections.length - (it.triedTimes + 1)) * (2 + weightSum it.connections) < _
  rw [← Nat.sub_sub]
  cases hs : it.subIter with
  | none =>
    rw [toYield_of_none it hs]
    omega
  | some sub =>
    rw [toYield_of_some hs]
    omega

theorem toYield_iter (h : c.iter s = (some it, s')) : it.toYield + 4 = c.weight := by
  obtain ⟨kind, self, connections, index, rfl, rfl⟩ := c.iter_some h
  rw [new, toYield, weight, Nat.sub_zero, Nat.add_comm]

/-- An exhausted iterator is all that a call without a result leaves. -/
theorem exhausted_of_next (h : it.next s = (none, it', s')) : it'.Exhausted := by
  induction hk : it.toYield using Nat.strongRecOn generalizing it s with
  | ind k ih =>
    have hcases := next_cases it s
    generalize hr : it.next s = r at hcases
    cases hcases with
    | exhausted hdone =>
      cases hr.symm.trans h
      exact hdone
    | leaf _ _ _ _ => cases hr.symm.trans h
    | enter _ _ _ _ _ => cases hr.symm.trans h
    | within _ _ => cases hr.symm.trans h
    | onward hlt =>
      exact ih _ (hk ▸ toYield_tried_lt _ hlt) (hr.symm.trans h) rfl

/-- Only leaves are yielded, and every yield uses up work. -/
theorem next_some (h : it.next s = (some c, it', s')) :
    c.isContainer = false ∧ it'.toYield < it.toYield := by
  induction hk : it.toYield using Nat.strongRecOn generalizing it it' s s' with
  | ind k ih =>
    have hcases := next_cases it s
    generalize hr : it.next s = r at hcases
    subst hk
    cases hcases with
    | exhausted _ => cases hr.symm.trans h
    | leaf hlt hs _ hc =>
      cases hr.symm.trans h
      refine ⟨hc, ?_⟩
      rw [toYield_of_none it hs, toYield_of_none { it with index := _, triedTimes := _ } hs]
      have := toYield_after hlt
      simp only [← Nat.sub_sub]
      omega
    | @enter child _ sub sub' s₁ _ _ hlt hs hmem hi hn =>
      cases hr.symm.trans h
      have hsub := toYield_iter hi
      have hchild := weight_le_weightSum hmem
      have hafter := toYield_after hlt
      have hit := toYield_of_none it hs
      obtain ⟨hc, hless⟩ := ih _ (by omega) hn rfl
      refine ⟨hc, ?_⟩
      rw [toYield_of_some rfl]
      simp only
      omega
    | @within _ sub sub' _ hs hn =>
      cases hr.symm.trans h
      have hit := toYield_of_some hs
      obtain ⟨hc, hless⟩ := ih _ (by omega) hn rfl
      refine ⟨hc, ?_⟩
      rw [toYield_of_some rfl]
      simp only
      omega
    | @onward index _ hlt =>
      have hless := toYield_tried_lt index hlt
      obtain ⟨hc, hlt'⟩ := ih _ hless (hr.symm.trans h) rfl
      exact ⟨hc, by omega⟩

end

end ConnectionIterator

open ConnectionIterator

/-! ### The indices an iteration touches -/

mutual
/-- The allocations of the round robin containers of a tree: only these draw from their
index as they are iterated over. -/
def Connection.counters : Connection → List Nat
  | leaf _ => []
  | container .roundRobin self connections => self.addr :: countersList connections
  | container .failOver _ connections => countersList connections
  | container .random _ connections => countersList connections
/-- The allocations of the round robin containers of a list of trees. -/
def Connection.countersList : List Connection → List Nat
  | [] => []
  | c :: cs => c.counters ++ countersList cs
end

theorem Connection.mem_countersList {cs : List Connection} {addr : Nat} :
    addr ∈ countersList cs ↔ ∃ c ∈ cs, addr ∈ c.counters := by
  induction cs with
  | nil => simp [countersList]
  | cons c cs ih => simp [countersList, ih]

theorem Connection.countersList_subset_counters (kind : ContainerKind) (self : Handle)
    (connections : List Connection) :
    countersList connections ⊆ (container kind self connections).counters := by
  intro addr h
  cases kind with
  | roundRobin =>
    rw [counters]
    exact List.mem_cons_of_mem _ h
  | failOver => rwa [counters]
  | random => rwa [counters]

/-- The indices of all containers but those at the given allocations are the same. -/
def Balancers.SameBut (addrs : List Nat) (s s' : Balancers) : Prop :=
  ∀ addr, addr ∉ addrs → s'.index addr = s.index addr

namespace Balancers.SameBut

variable {addrs addrs' : List Nat} {s s₁ s' : Balancers}

theorem refl (addrs : List Nat) (s : Balancers) : SameBut addrs s s := fun _ _ => rfl

theorem trans (h : SameBut addrs s s₁) (h' : SameBut addrs s₁ s') : SameBut addrs s s' :=
  fun addr ha => (h' addr ha).trans (h addr ha)

theorem mono (hsub : addrs ⊆ addrs') (h : SameBut addrs s s') : SameBut addrs' s s' :=
  fun addr ha => h addr fun hmem => ha (hsub hmem)

end Balancers.SameBut

theorem Connection.iter_sameBut (c : Connection) (s : Balancers) :
    Balancers.SameBut c.counters s (c.iter s).2 := by
  intro addr ha
  cases c with
  | leaf self => rfl
  | container kind self connections =>
    cases kind with
    | roundRobin =>
      rw [counters, List.mem_cons, not_or] at ha
      simp only [Connection.iter]
      split <;> simp [Balancers.fetchAdd, Function.update_of_ne ha.1]
    | failOver =>
      simp only [Connection.iter]
      split <;> rfl
    | random =>
      simp only [Connection.iter]
      split <;> rfl

/-! ### Every tree -/

/-- Only an empty container has no iterator. -/
theorem Connection.iter_none {s s' : Balancers} {kind : ContainerKind} {self : Handle}
    {connections : List Connection}
    (h : (container kind self connections).iter s = (none, s')) : connections = [] := by
  cases kind <;> simp only [Connection.iter] at h <;> split at h
  case roundRobin.isTrue h0 => exact List.length_eq_zero_iff.mp h0
  case failOver.isTrue h0 => exact List.length_eq_zero_iff.mp h0
  case random.isTrue h0 => exact List.length_eq_zero_iff.mp h0
  all_goals cases h

theorem Connection.leavesList_perm {cs ds : List Connection} (h : cs.Perm ds) :
    (leavesList cs).Perm (leavesList ds) := by
  rw [leavesList_eq_flatMap, leavesList_eq_flatMap]
  exact h.flatMap_right leaves

/-- A child contributes a sequence in which each of its leaves stands once, and touches
the indices of its round robin containers only. -/
def ExpandsToLeaves (c : Connection) : Prop :=
  ∀ s, ∃ xs s', Expands c s xs s' ∧ xs.Perm c.leaves ∧ s.SameBut c.counters s'

theorem expandsList_of_forall {cs : List Connection} {addrs : List Nat}
    (h : ∀ c ∈ cs, ExpandsToLeaves c) (haddrs : ∀ c ∈ cs, c.counters ⊆ addrs) (s : Balancers) :
    ∃ xs s', ExpandsList cs s xs s' ∧ xs.Perm (leavesList cs) ∧ s.SameBut addrs s' := by
  induction cs generalizing s with
  | nil => exact ⟨[], s, .nil, .refl _, .refl _ _⟩
  | cons c cs ih =>
    obtain ⟨xs, s₁, hxs, hperm, hsame⟩ := h c (by simp) s
    obtain ⟨ys, s', hys, hperm', hsame'⟩ :=
      ih (fun d hd => h d (by simp [hd])) (fun d hd => haddrs d (by simp [hd])) s₁
    exact ⟨xs ++ ys, s', .cons hxs hys, hperm.append hperm',
      (hsame.mono (haddrs c (by simp))).trans hsame'⟩

theorem expandsList_rotation {connections : List Connection}
    (h : ∀ c ∈ connections, ExpandsToLeaves c) (start : Nat) (s : Balancers) :
    ∃ xs s', ExpandsList (rotation connections start) s xs s' ∧
      xs.Perm (leavesList connections) ∧ s.SameBut (countersList connections) s' := by
  have hrot := rotation_perm connections start
  obtain ⟨xs, s', hxs, hperm, hsame⟩ := expandsList_of_forall
    (fun c hc => h c (hrot.mem_iff.mp hc))
    (fun c hc _ haddr => mem_countersList.mpr ⟨c, hrot.mem_iff.mp hc, haddr⟩) s
  exact ⟨xs, s', hxs, hperm.trans (leavesList_perm hrot), hsame⟩

/-- The iterator of a container drains: each leaf of the container stands once in the
sequence. -/
theorem drains_iter {kind : ContainerKind} {self : Handle} {connections : List Connection}
    (h : ∀ c ∈ connections, ExpandsToLeaves c) {it : ConnectionIterator} {s s₁ : Balancers}
    (hi : (container kind self connections).iter s = (some it, s₁)) :
    ∃ xs st, Drains nextState (it, s₁) xs st ∧ xs.Perm (leavesList connections) ∧
      s.SameBut (container kind self connections).counters st.2 := by
  obtain ⟨_, _, _, index, hc, rfl⟩ := (container kind self connections).iter_some hi
  cases hc
  obtain ⟨xs, s', hxs, hperm, hsame⟩ := expandsList_rotation h index s₁
  obtain ⟨it', hd⟩ := drains_new index hxs
  have hiter := (container kind self connections).iter_sameBut s
  rw [hi] at hiter
  exact ⟨xs, (it', s'), hd, hperm,
    hiter.trans (hsame.mono (countersList_subset_counters kind self connections))⟩

theorem expandsToLeaves (c : Connection) : ExpandsToLeaves c := by
  induction c using treeInduction with
  | leaf self =>
    intro s
    exact ⟨_, s, .leaf rfl, .refl _, .refl _ _⟩
  | container kind self connections ih =>
    intro s
    rcases hi : (container kind self connections).iter s with ⟨_ | it, s₁⟩
    · have hiter := (container kind self connections).iter_sameBut s
      rw [hi] at hiter
      refine ⟨[], s₁, .empty rfl hi, ?_, hiter⟩
      rw [leaves, iter_none hi, leavesList]
    · obtain ⟨xs, st, hd, hperm, hsame⟩ := drains_iter ih hi
      exact ⟨xs, st.2, .nested rfl hi hd, hperm, hsame⟩

/-- An iterator over any list of trees yields, from its start index on and round the
list, the whole sequence of one child after another. Each leaf stands in it once, and
after it the iterator returns nothing, however often it is asked. -/
theorem drains_rotation (connections : List Connection) (start : Nat) (s : Balancers) :
    ∃ xs it' s', ExpandsList (rotation connections start) s xs s' ∧
      Drains nextState (.new connections start, s) xs (it', s') ∧
      xs.Perm (leavesList connections) ∧ ∀ s'', it'.next s'' = (none, it', s'') := by
  obtain ⟨xs, s', hxs, hperm, -⟩ :=
    expandsList_rotation (fun c _ => expandsToLeaves c) start s
  obtain ⟨it', hd⟩ := drains_new start hxs
  obtain ⟨⟨it, s₀⟩, hlast⟩ := hd.exhausted
  exact ⟨xs, it', s', hxs, hd, hperm, next_of_exhausted (exhausted_of_next hlast)⟩

end RestDiameterBridge
