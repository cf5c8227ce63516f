import RestDiameterBridge.Lib.Attempts
import RestDiameterBridge.Transport.Traversal

/-!
# RestDiameterBridge.Transport.Send

`send` of the containers (`src/transport/roundrobin_connection.rs`,
`failover_connect.rs`, `random_connection.rs`), one send at a time.

A failover container sends through its own connections, starting at the index it keeps.
The other containers send to the leaves their iterator yields. Whichever of the two a
container does, it runs over its leaves in some order and stops at the first that
accepts (`RunsOver`): the runs of the children of a failover container follow one
another (`sendFrom_runsOver`), and an iterator is drained up to the first acceptor
(`sendEach_runsOver`). The index a failover container stores stays below the number of its
connections (`sendFrom_index_lt`), so `usize` arithmetic on it is that of `Nat`.
-/

namespace RestDiameterBridge

open Connection ConnectionIterator Iteration Attempts

/-- What one `send` did: its result, what was attempted, in turn, and the state it left
behind. -/
structure SendOutcome (α : Type) where
  result : Except String Unit
  attempts : List α
  state : Balancers

/-- `store` on the index of a container. -/
def Balancers.store (s : Balancers) (addr index : Nat) : Balancers :=
  { s with index := Function.update s.index addr index }

namespace FailOverConnection

variable {α : Type}

/-- `(self.index + i) % n`. -/
def indexAt (index : Nat) {n : Nat} (i : Fin n) : Fin n :=
  ⟨(index + i) % n, Nat.mod_lt _ i.pos⟩

/-- The loop of `FailOverConnection::send`, from the values of `i` still to come. The
index is read again for each of them. -/
def sendFrom (addr : Nat) (connections : List (Balancers → SendOutcome α)) :
    List (Fin connections.length) → Balancers → SendOutcome α
  | [], s =>
      { result := .error "Fail to send command after trying all connections in failover"
        attempts := []
        state := s }
  | i :: is, s =>
      let index := indexAt (s.index addr) i
      let sent := connections.get index s
      match sent.result with
      | .ok () => { sent with state := sent.state.store addr ((index + 1) % connections.length) }
      | .error _ =>
          let rest := sendFrom addr connections is sent.state
          { rest with attempts := sent.attempts ++ rest.attempts }

/-- `FailOverConnection::send`, over whatever the connections do. -/
def send (addr : Nat) (connections : List (Balancers → SendOutcome α)) (s : Balancers) :
    SendOutcome α :=
  if connections.length = 0 then
    { result := .error "No available connections in failover", attempts := [], state := s }
  else sendFrom addr connections (List.finRange connections.length) s

end FailOverConnection

/-- The loop over an iterator in the other two containers. What an iterator yields is a
leaf. -/
def sendEach (failure : String) (outcome : Handle → Except String Unit)
    (it : ConnectionIterator) (s : Balancers) : SendOutcome Handle :=
  match _h : it.next s with
  | (none, _, s') => { result := .error failure, attempts := [], state := s' }
  | (some conn, it', s') =>
      match outcome conn.self with
      | .ok () => { result := .ok (), attempts := [conn.self], state := s' }
      | .error _ =>
          let rest := sendEach failure outcome it' s'
          { rest with attempts := conn.self :: rest.attempts }
termination_by it.toYield
decreasing_by exact (next_some _h).2

/-- `send` through the iterator of a container. -/
def sendThrough (missing failure : String) (outcome : Handle → Except String Unit) :
    Option ConnectionIterator × Balancers → SendOutcome Handle
  | (none, s) => { result := .error missing, attempts := [], state := s }
  | (some it, s) => sendEach failure outcome it s

namespace Connection

mutual
/-- `send`, where `outcome` says what each leaf answers. -/
def send (outcome : Handle → Except String Unit) : Connection → Balancers → SendOutcome Handle
  | leaf self => fun s => { result := outcome self, attempts := [self], state := s }
  | container .roundRobin self connections => fun s =>
      sendThrough "No available connections in round robin"
        "Fail to send command after trying all connections in round robin" outcome
        ((container .roundRobin self connections).iter s)
  | container .failOver self connections =>
      FailOverConnection.send self.addr (sends outcome connections)
  | container .random self connections => fun s =>
      sendThrough "No available connections in random strategy"
        "Fail to send command after trying all connections in random strategy" outcome
        ((container .random self connections).iter s)
/-- `send` of each connection of a list. -/
def sends (outcome : Handle → Except String Unit) :
    List Connection → List (Balancers → SendOutcome Handle)
  | [] => []
  | c :: cs => c.send outcome :: sends outcome cs
end

theorem sends_eq_map (outcome : Handle → Except String Unit) (cs : List Connection) :
    sends outcome cs = cs.map (send outcome) := by
  induction cs with
  | nil => rfl
  | cons c cs ih => rw [sends, ih, List.map_cons]

end Connection

/-! ### A run over a list -/

/-- Does the connection accept the command? -/
def accepts {α : Type} (outcome : α → Except String Unit) (a : α) : Bool :=
  (outcome a).isOk

/-- A `send` from `s` attempted the list in turn, up to the first that accepts. Where
none does it changed no index but those at the given allocations. -/
structure RunsOver {α : Type} (outcome : α → Except String Unit) (addrs : List Nat)
    (xs : List α) (s : Balancers) (sent : SendOutcome α) : Prop where
  attempts_eq : sent.attempts = upTo (accepts outcome) xs
  isOk_eq : sent.result.isOk = xs.any (accepts outcome)
  sameBut : sent.result.isOk = false → s.SameBut addrs sent.state

namespace FailOverConnection

variable {α : Type} {outcome : α → Except String Unit} {addrs : List Nat} {addr k : Nat}
  {connections : List (Balancers → SendOutcome α)} {R : Nat → List α → Prop}

theorem sendFrom_of_ok {i : Fin connections.length} {is : List (Fin connections.length)}
    {s : Balancers}
    (h : (connections.get (indexAt (s.index addr) i) s).result = .ok ()) :
    sendFrom addr connections (i :: is) s =
      let sent := connections.get (indexAt (s.index addr) i) s
      { sent with
        state := sent.state.store addr
          ((indexAt (s.index addr) i + 1) % connections.length) } := by
  rw [sendFrom]
  simp only [h]

theorem sendFrom_of_error {i : Fin connections.length} {is : List (Fin connections.length)}
    {s : Balancers} {e : String}
    (h : (connections.get (indexAt (s.index addr) i) s).result = .error e) :
    sendFrom addr connections (i :: is) s =
      let sent := connections.get (indexAt (s.index addr) i) s
      let rest := sendFrom addr connections is sent.state
      { rest with attempts := sent.attempts ++ rest.attempts } := by
  rw [sendFrom]
  simp only [h]

/-- Each of the connections runs over a list that `R` allows at its position. -/
def RunEach (outcome : α → Except String Unit) (addrs : List Nat)
    (connections : List (Balancers → SendOutcome α)) (R : Nat → List α → Prop) : Prop :=
  ∀ (j : Fin connections.length) s,
    ∃ xs, R j xs ∧ RunsOver outcome addrs xs s (connections.get j s)

theorem RunEach.exists_lists (hconn : RunEach outcome addrs connections R) (s : Balancers)
    (is : List (Fin connections.length)) :
    ∃ xss, List.Forall₂ (fun i xs => R (indexAt k i) xs) is xss := by
  induction is with
  | nil => exact ⟨[], .nil⟩
  | cons i is ih =>
    obtain ⟨xss, hxss⟩ := ih
    obtain ⟨xs, hxs, -⟩ := hconn (indexAt k i) s
    exact ⟨xs :: xss, .cons hxs hxss⟩

/-- The loop runs over what its connections run over, one after another: a connection
that failed has left the index alone. -/
theorem sendFrom_runsOver (haddr : addr ∉ addrs)
    (hconn : RunEach outcome addrs connections R)
    (is : List (Fin connections.length)) {s : Balancers} (hk : s.index addr = k) :
    ∃ xss, List.Forall₂ (fun i xs => R (indexAt k i) xs) is xss ∧
      RunsOver outcome addrs xss.flatten s (sendFrom addr connections is s) := by
  induction is generalizing s with
  | nil => exact ⟨[], .nil, rfl, rfl, fun _ => .refl _ _⟩
  | cons i is ih =>
    subst hk
    obtain ⟨xs, hR, hrun⟩ := hconn (indexAt (s.index addr) i) s
    cases hresult : (connections.get (indexAt (s.index addr) i) s).result with
    | ok u =>
      obtain ⟨yss, hyss⟩ := hconn.exists_lists s is
      have hany : xs.any (accepts outcome) = true := by
        rw [← hrun.isOk_eq, hresult]
        rfl
      rw [sendFrom_of_ok hresult]
      refine ⟨xs :: yss, .cons hR hyss, ?_, ?_, ?_⟩
      · rw [List.flatten_cons, upTo_append, if_pos hany]
        exact hrun.attempts_eq
      · rw [List.flatten_cons, List.any_append, hany, Bool.true_or]
        exact hrun.isOk_eq.trans hany
      · intro h
        exact absurd (h.symm.trans (hrun.isOk_eq.trans hany)) Bool.false_ne_true
    | error e =>
      have hfail : (connections.get (indexAt (s.index addr) i) s).result.isOk = false := by
        rw [hresult]
        rfl
      have hsame := hrun.sameBut hfail
      have hnone : xs.any (accepts outcome) = false := hrun.isOk_eq ▸ hfail
      obtain ⟨yss, hyss, hrest⟩ := ih (hsame addr haddr)
      rw [sendFrom_of_error hresult]
      refine ⟨xs :: yss, .cons hR hyss, ?_, ?_, ?_⟩
      · simp only [hrun.attempts_eq, hrest.attempts_eq]
        rw [List.flatten_cons, upTo_append, if_neg (by simp [hnone]), upTo_of_none hnone]
      · rw [List.flatten_cons, List.any_append, hnone, Bool.false_or]
        exact hrest.isOk_eq
      · intro h
        exact hsame.trans (hrest.sameBut h)

theorem send_runsOver (haddr : addr ∉ addrs) (hconn : RunEach outcome addrs connections R)
    (s : Balancers) :
    ∃ xss, List.Forall₂ (fun i xs => R (indexAt (s.index addr) i) xs)
        (List.finRange connections.length) xss ∧
      RunsOver outcome addrs xss.flatten s (send addr connections s) := by
  rw [send]
  split
  · rename_i h0
    obtain rfl := List.length_eq_zero_iff.mp h0
    exact ⟨[], .nil, rfl, rfl, fun _ => .refl _ _⟩
  · exact sendFrom_runsOver haddr hconn _ rfl

/-- The stored index stays below the number of connections, so that adding `i` to it
never leaves `usize`. -/
theorem sendFrom_index_lt (haddr : addr ∉ addrs) (hconn : RunEach outcome addrs connections R)
    (is : List (Fin connections.length)) {s : Balancers}
    (hlt : s.index addr < connections.length) :
    (sendFrom addr connections is s).state.index addr < connections.length := by
  induction is generalizing s with
  | nil => exact hlt
  | cons i is ih =>
    obtain ⟨xs, -, hrun⟩ := hconn (indexAt (s.index addr) i) s
    cases hresult : (connections.get (indexAt (s.index addr) i) s).result with
    | ok u =>
      rw [sendFrom_of_ok hresult]
      simp only [Balancers.store, Function.update_self]
      exact Nat.mod_lt _ i.pos
    | error e =>
      have hsame := hrun.sameBut (by rw [hresult]; rfl) addr haddr
      rw [sendFrom_of_error hresult]
      exact ih (hsame.symm ▸ hlt)

end FailOverConnection

/-- The loop over an iterator runs over what the iterator yields. -/
theorem sendEach_runsOver {failure : String} {outcome : Handle → Except String Unit}
    {addrs : List Nat} {s : Balancers} {st st' : ConnectionIterator × Balancers}
    {xs : List Connection} (hd : Drains nextState st xs st') (hsame : s.SameBut addrs st'.2) :
    RunsOver outcome addrs (xs.map self) s (sendEach failure outcome st.1 st.2) := by
  induction hd with
  | @done st st' hn =>
    have hnext : st.1.next st.2 = (none, st'.1, st'.2) := hn
    rw [sendEach]
    split
    · rename_i h
      cases hnext.symm.trans h
      exact ⟨rfl, rfl, fun _ => hsame⟩
    · rename_i h
      cases hnext.symm.trans h
  | @more st st₁ st' c cs hn _ ih =>
    have hnext : st.1.next st.2 = (some c, st₁.1, st₁.2) := hn
    have hrest := ih hsame
    rw [sendEach]
    split
    · rename_i h
      cases hnext.symm.trans h
    · rename_i h
      cases hnext.symm.trans h
      cases ho : outcome c.self with
      | ok u =>
        have hacc : accepts outcome c.self = true := by
          rw [accepts, ho]
          rfl
        refine ⟨?_, ?_, fun h => by cases h⟩
        · rw [List.map_cons, upTo, if_pos hacc]
        · rw [List.map_cons, List.any_cons, hacc, Bool.true_or]
          rfl
      | error e =>
        have hacc : accepts outcome c.self = false := by
          rw [accepts, ho]
          rfl
        refine ⟨?_, ?_, hrest.sameBut⟩
        · rw [List.map_cons, upTo, if_neg (by simp [hacc])]
          simp only [hrest.attempts_eq]
        · rw [List.map_cons, List.any_cons, hacc, Bool.false_or]
          exact hrest.isOk_eq

namespace Connection

/-- The leaves of a tree, as peer connections. -/
def handles (c : Connection) : List Handle :=
  c.leaves.map self

/-- Every failover container keeps its index for itself: no round robin container under
it lives at the same allocation. -/
inductive OwnIndex : Connection → Prop
  | leaf (self : Handle) : OwnIndex (leaf self)
  | roundRobin (self : Handle) (connections : List Connection) :
      OwnIndex (container .roundRobin self connections)
  | failOver (self : Handle) (connections : List Connection) :
      self.addr ∉ countersList connections → (∀ c ∈ connections, OwnIndex c) →
      OwnIndex (container .failOver self connections)
  | random (self : Handle) (connections : List Connection) :
      OwnIndex (container .random self connections)

variable {outcome : Handle → Except String Unit}

/-- A container that sends through its iterator runs over its leaves. -/
theorem sendThrough_runsOver (missing failure : String) (kind : ContainerKind) (self : Handle)
    (connections : List Connection) (s : Balancers) :
    ∃ xs, xs.Perm (container kind self connections).handles ∧
      RunsOver outcome (container kind self connections).counters xs s
        (sendThrough missing failure outcome ((container kind self connections).iter s)) := by
  have hiter := (container kind self connections).iter_sameBut s
  rcases hi : (container kind self connections).iter s with ⟨_ | it, s₁⟩
  · rw [hi] at hiter
    obtain rfl := iter_none hi
    exact ⟨[], .refl _, rfl, rfl, fun _ => hiter⟩
  · obtain ⟨xs, st, hd, hperm, hsame⟩ := drains_iter (fun c _ => expandsToLeaves c) hi
    exact ⟨xs.map Connection.self, hperm.map Connection.self, sendEach_runsOver hd hsame⟩

theorem handles_container (kind : ContainerKind) (self : Handle) (connections : List Connection) :
    (container kind self connections).handles = connections.flatMap handles := by
  rw [handles, leaves, leavesList_eq_flatMap, List.map_flatMap]
  rfl

/-- Lists over the leaves of each tree make up a list over the leaves of all. -/
theorem flatten_perm_handles {cs : List Connection} {xss : List (List Handle)}
    (h : List.Forall₂ (fun c xs => xs.Perm c.handles) cs xss) :
    xss.flatten.Perm (cs.flatMap handles) := by
  induction h with
  | nil => exact .refl _
  | cons hxs _ ih =>
    rw [List.flatten_cons, List.flatMap_cons]
    exact hxs.append ih

/-- `send` of a tree runs over its leaves in some order. -/
def RunsOverLeaves (outcome : Handle → Except String Unit) (c : Connection) : Prop :=
  ∀ s, ∃ xs, xs.Perm c.handles ∧ RunsOver outcome c.counters xs s (c.send outcome s)

theorem length_sends (outcome : Handle → Except String Unit) (cs : List Connection) :
    (sends outcome cs).length = cs.length := by
  rw [sends_eq_map, List.length_map]

theorem runEach_sends {cs : List Connection} (h : ∀ c ∈ cs, RunsOverLeaves outcome c) :
    FailOverConnection.RunEach outcome (countersList cs) (sends outcome cs)
      fun j xs => ∀ h : j < cs.length, xs.Perm (cs.get ⟨j, h⟩).handles := by
  intro j s
  have hj : j < cs.length := length_sends outcome cs ▸ j.isLt
  have hmem : cs.get ⟨j, hj⟩ ∈ cs := List.get_mem _ _
  have hget : (sends outcome cs).get j = (cs.get ⟨j, hj⟩).send outcome := by
    simp [sends_eq_map]
  obtain ⟨xs, hperm, hrun⟩ := h _ hmem s
  rw [hget]
  refine ⟨xs, fun _ => hperm, hrun.attempts_eq, hrun.isOk_eq, fun h => ?_⟩
  exact (hrun.sameBut h).mono fun _ ha => mem_countersList.mpr ⟨_, hmem, ha⟩

/-- Whatever the containers in a tree, `send` runs over its leaves. -/
theorem runsOverLeaves {c : Connection} (hown : c.OwnIndex) : RunsOverLeaves outcome c := by
  induction hown with
  | leaf self =>
    intro s
    refine ⟨[self], .refl _, ?_, ?_, fun _ => .refl _ _⟩
    · rw [send, upTo]
      split <;> rfl
    · rw [send, List.any_cons, List.any_nil, Bool.or_false]
      rfl
  | roundRobin self connections =>
    intro s
    rw [send]
    exact sendThrough_runsOver _ _ _ _ _ s
  | random self connections =>
    intro s
    rw [send]
    exact sendThrough_runsOver _ _ _ _ _ s
  | failOver self connections haddr _ ih =>
    intro s
    obtain ⟨xss, hxss, hrun⟩ := FailOverConnection.send_runsOver haddr (runEach_sends ih) s
    rw [length_sends] at hxss
    have hrot : List.Forall₂ (fun c xs => xs.Perm c.handles)
        (rotation connections (s.index self.addr)) xss := by
      rw [rotation, List.forall₂_map_left_iff]
      exact hxss.imp fun i xs h => h (Nat.mod_lt _ i.pos)
    refine ⟨xss.flatten, ?_, ?_⟩
    · rw [handles_container]
      exact (flatten_perm_handles hrot).trans ((rotation_perm _ _).flatMap_right handles)
    · rw [send, counters]
      exact hrun

end Connection

/-- What a `send` to some leaves is to do. -/
structure SendsOnce (outcome : Handle → Except String Unit) (leaves : List Handle)
    (sent : SendOutcome Handle) : Prop where
  /-- Every occurrence of a leaf is attempted at most once. -/
  atMostOnce : sent.attempts.Subperm leaves
  /-- All but the last attempt failed. -/
  stops : ∀ l ∈ sent.attempts.dropLast, accepts outcome l = false
  ok_iff : sent.result.isOk = true ↔ ∃ l ∈ leaves, accepts outcome l = true
  exactlyOne : sent.result.isOk = true → sent.attempts.countP (accepts outcome) = 1
  allOfError : sent.result.isOk = false → sent.attempts.Perm leaves

theorem RunsOver.sendsOnce {outcome : Handle → Except String Unit} {addrs : List Nat}
    {xs leaves : List Handle} {s : Balancers} {sent : SendOutcome Handle}
    (h : RunsOver outcome addrs xs s sent) (hperm : xs.Perm leaves) :
    SendsOnce outcome leaves sent where
  atMostOnce := by
    rw [h.attempts_eq]
    exact (upTo_isStart xs).sublist.subperm.trans hperm.subperm
  stops := by
    rw [h.attempts_eq]
    exact fun l hl => refuses_of_mem_dropLast hl
  ok_iff := by
    rw [h.isOk_eq, List.any_eq_true]
    exact exists_congr fun l => and_congr_left fun _ => hperm.mem_iff
  exactlyOne hok := by
    rw [h.attempts_eq, countP_upTo, ← h.isOk_eq, hok, if_pos rfl]
  allOfError herr := by
    rw [h.attempts_eq, upTo_of_none (h.isOk_eq ▸ herr)]
    exact hperm

/-- A tree of containers as it lies in memory. -/
structure ConnectionTree where
  root : Connection
  ownIndex : root.OwnIndex

/-- `send` on any tree, whatever its indices and draws, attempts no leaf twice, goes on
after failures only and fails only after every leaf did. -/
theorem send_sendsOnce (tree : ConnectionTree) (outcome : Handle → Except String Unit)
    (s : Balancers) : SendsOnce outcome tree.root.handles (tree.root.send outcome s) := by
  obtain ⟨xs, hperm, hrun⟩ := Connection.runsOverLeaves tree.ownIndex s
  exact hrun.sendsOnce hperm

/-- Failover from two connections in turn to two at random. -/
def nearAndFar : ConnectionTree where
  root :=
    .container .failOver ⟨0, "all", "", ""⟩
      [.container .roundRobin ⟨1, "near", "", ""⟩
          [.leaf ⟨2, "near1", "near1", "realm"⟩, .leaf ⟨3, "near2", "near2", "realm"⟩],
        .container .random ⟨4, "far", "", ""⟩
          [.leaf ⟨5, "far1", "far1", "realm"⟩, .leaf ⟨6, "far2", "far2", "realm"⟩]]
  ownIndex := by
    refine .failOver _ _ (by decide) fun c hc => ?_
    rcases List.mem_pair.mp hc with rfl | rfl
    · exact .roundRobin _ _
    · exact .random _ _

/-- If only one connection of the tree accepts, it is found. -/
theorem send_sendsOnce_nearAndFar :
    let sent := nearAndFar.root.send
      (fun self => if self.id = "far2" then .ok () else .error "refused") unused
    sent.result.isOk = true ∧ (⟨6, "far2", "far2", "realm"⟩ : Handle) ∈ sent.attempts := by
  have hsends := send_sendsOnce nearAndFar
    (fun self => if self.id = "far2" then .ok () else .error "refused") unused
  have hok := hsends.ok_iff.mpr ⟨⟨6, "far2", "far2", "realm"⟩, by decide, rfl⟩
  refine ⟨hok, ?_⟩
  -- of the leaves only this one accepts
  have hleaves : ∀ l ∈ nearAndFar.root.handles,
      accepts (fun self : Handle => if self.id = "far2" then .ok () else .error "refused") l = true →
        l = ⟨6, "far2", "far2", "realm"⟩ := by
    decide
  have hone := hsends.exactlyOne hok
  obtain ⟨l, hl, haccepts⟩ := List.countP_pos_iff.mp (by rw [hone]; exact Nat.one_pos)
  rwa [← hleaves l (hsends.atMostOnce.subset hl) haccepts]

end RestDiameterBridge
