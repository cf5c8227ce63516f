import Mathlib.Data.Set.Insert
import RestDiameterBridge.Transport.Routing

/-!
# RestDiameterBridge.Transport.ConnectionManager

The registry of connections (`src/transport/connection_manager.rs`): by id, and by the
`host@realm` of the peer, where the connections of one peer form a round-robin group.

Adding a connection puts it into its peer's group; removing one drops the whole group
(`removeConnection`, `removeConnectionById`). `Registry` runs a manager together with the
set of connections added and not yet removed, and `allFound_iff_clear` says in which runs
every one of these can still be found.
-/

namespace RestDiameterBridge

open Connection

/-- Append a connection to a container's list. A leaf ignores it. -/
def Connection.addMember : Connection → Connection → Connection
  | .leaf self, _ => .leaf self
  | .container kind self connections, c => .container kind self (connections ++ [c])

/-- The connections a container holds itself. -/
def Connection.members : Connection → List Connection
  | .leaf _ => []
  | .container _ _ connections => connections

/-- The connections of a stack. -/
structure ConnectionManager where
  connections : AList fun _ : String => Connection
  hostRealmConnections : AList fun _ : String => Connection
  routingManager : Option RoutingConnectionManager
  nextAddr : Nat

namespace ConnectionManager

/-- A manager without connections. -/
def new (routingManager : Option RoutingConnectionManager) : ConnectionManager :=
  { connections := ∅, hostRealmConnections := ∅, routingManager, nextAddr := 0 }

/-- The number of registered connections. -/
def connectionCount (m : ConnectionManager) : Nat := m.connections.entries.length

/-- A new group without members. The random part of its id is the allocation. -/
def newGroup (m : ConnectionManager) : Connection :=
  .container .roundRobin
    ⟨m.nextAddr, s!"round_robin-{m.nextAddr}", "unknown-peer", "unknown-realm"⟩ []

/-- Register a connection: with the routes, by its id, and in the group of its peer, which
is created if there is none. -/
def addConnection (m : ConnectionManager) (c : Connection) : ConnectionManager :=
  let m := { m with
    routingManager := m.routingManager.map fun (r : RoutingConnectionManager) => r.addConnection c
    connections := m.connections.insert c.self.id c }
  match m.hostRealmConnections.lookup c.peerKey with
  | some conn =>
      { m with
        hostRealmConnections := m.hostRealmConnections.insert c.peerKey (conn.addMember c) }
  | none =>
      { m with
        hostRealmConnections := m.hostRealmConnections.insert c.peerKey (m.newGroup.addMember c)
        nextAddr := m.nextAddr + 1 }

/-- What both removals do after the connection itself is known: take it out of the routes
and drop the groups under its realm and its `host@realm`. -/
def dropGroups (m : ConnectionManager) (c : Connection) : ConnectionManager :=
  { m with
    routingManager := m.routingManager.map fun (r : RoutingConnectionManager) => r.removeConnection c
    hostRealmConnections := (m.hostRealmConnections.erase c.self.peerRealm).erase c.peerKey }

/-- Remove a connection. -/
def removeConnection (m : ConnectionManager) (c : Connection) : ConnectionManager :=
  let m := m.dropGroups c
  { m with connections := m.connections.erase c.self.id }

/-- Remove the connection registered under an id. -/
def removeConnectionById (m : ConnectionManager) (id : String) : ConnectionManager :=
  match m.connections.lookup id with
  | some c => { m with connections := m.connections.erase id }.dropGroups c
  | none => m

/-- The connection registered under an id. -/
def getConnectionById (m : ConnectionManager) (connectionId : String) : Option Connection :=
  m.connections.lookup connectionId

/-- The group of a peer. -/
def getConnectionByHostRealm (m : ConnectionManager) (host realm : String) : Option Connection :=
  m.hostRealmConnections.lookup (hostRealm host realm)

/-- The connection is in the group found under its own `host@realm`. -/
def Finds (m : ConnectionManager) (c : Connection) : Prop :=
  ∃ group, m.getConnectionByHostRealm c.self.peerHost c.self.peerRealm = some group ∧
    c ∈ group.members

section
variable {m : ConnectionManager} {c d : Connection} {id : String}

theorem mem_addMember (hg : d.isContainer = true) {e : Connection} :
    e ∈ (d.addMember c).members ↔ e ∈ d.members ∨ e = c := by
  cases d with
  | leaf self => cases hg
  | container kind self connections => simp [addMember, members]

@[simp] theorem isContainer_addMember : (d.addMember c).isContainer = d.isContainer := by
  cases d <;> rfl

/-- What is registered in the groups is a container. -/
def Grouped (m : ConnectionManager) : Prop :=
  ∀ key group, m.hostRealmConnections.lookup key = some group → group.isContainer = true

theorem grouped_new (nextAddr : Nat) : Grouped { new none with nextAddr } := by
  intro key group h
  cases h

theorem lookup_addConnection (id : String) :
    (m.addConnection c).connections.lookup id =
      if id = c.self.id then some c else m.connections.lookup id := by
  have hconn : (m.addConnection c).connections = m.connections.insert c.self.id c := by
    unfold addConnection
    dsimp only
    split <;> rfl
  rw [hconn]
  by_cases hid : id = c.self.id
  · rw [hid, AList.lookup_insert, if_pos rfl]
  · rw [AList.lookup_insert_ne hid, if_neg hid]

/-- The connection joins the group of its peer, or a new one. -/
theorem lookup_peerKey_addConnection :
    (m.addConnection c).hostRealmConnections.lookup c.peerKey =
      some (((m.hostRealmConnections.lookup c.peerKey).getD m.newGroup).addMember c) := by
  unfold addConnection
  dsimp only
  cases m.hostRealmConnections.lookup c.peerKey <;> exact AList.lookup_insert _

/-- The other groups stay as they are. -/
theorem lookup_addConnection_of_ne {key : String} (hkey : key ≠ c.peerKey) :
    (m.addConnection c).hostRealmConnections.lookup key = m.hostRealmConnections.lookup key := by
  unfold addConnection
  dsimp only
  split <;> exact AList.lookup_insert_ne hkey

theorem Grouped.addConnection (h : m.Grouped) : (m.addConnection c).Grouped := by
  intro key group hg
  by_cases hkey : key = c.peerKey
  · rw [hkey, lookup_peerKey_addConnection] at hg
    rw [← Option.some.inj hg, isContainer_addMember]
    cases hconn : m.hostRealmConnections.lookup c.peerKey with
    | none => rfl
    | some conn => exact h _ _ hconn
  · rw [lookup_addConnection_of_ne hkey] at hg
    exact h _ _ hg

/-- An addition is found, and takes nothing away. -/
theorem finds_addConnection (h : m.Grouped) (hd : d = c ∨ m.Finds d) :
    (m.addConnection c).Finds d := by
  have hgroup : ((m.hostRealmConnections.lookup c.peerKey).getD m.newGroup).isContainer = true := by
    cases hconn : m.hostRealmConnections.lookup c.peerKey with
    | none => rfl
    | some conn => exact h _ _ hconn
  rcases hd with rfl | hd
  · exact ⟨_, lookup_peerKey_addConnection, (mem_addMember hgroup).mpr (.inr rfl)⟩
  · obtain ⟨group, hg, hmem⟩ := hd
    change m.hostRealmConnections.lookup d.peerKey = some group at hg
    by_cases hkey : d.peerKey = c.peerKey
    · rw [hkey] at hg
      rw [hg] at hgroup
      refine ⟨group.addMember c, ?_, (mem_addMember hgroup).mpr (.inl hmem)⟩
      show (m.addConnection c).hostRealmConnections.lookup d.peerKey = _
      rw [hkey, lookup_peerKey_addConnection, hg]
      rfl
    · exact ⟨group, (lookup_addConnection_of_ne hkey).trans hg, hmem⟩

theorem finds_addConnections {cs : List Connection} (h : m.Grouped) (hd : d ∈ cs ∨ m.Finds d) :
    (cs.foldl addConnection m).Finds d := by
  induction cs generalizing m with
  | nil => exact hd.resolve_left List.not_mem_nil
  | cons c cs ih =>
    refine ih h.addConnection ?_
    rcases hd with hd | hd
    · rcases List.mem_cons.mp hd with rfl | hd
      · exact .inr (finds_addConnection h (.inl rfl))
      · exact .inl hd
    · exact .inr (finds_addConnection h (.inr hd))

/-- Exactly the connections in the two dropped groups are lost. -/
theorem finds_dropGroups :
    (m.dropGroups c).Finds d ↔
      (d.peerKey ≠ c.peerKey ∧ d.peerKey ≠ c.self.peerRealm) ∧ m.Finds d := by
  show (∃ group, ((m.hostRealmConnections.erase c.self.peerRealm).erase c.peerKey).lookup
    d.peerKey = some group ∧ d ∈ group.members) ↔ _
  by_cases hkey : d.peerKey = c.peerKey
  · rw [hkey, AList.lookup_erase]
    simp
  · rw [AList.lookup_erase_ne hkey]
    by_cases hrealm : d.peerKey = c.self.peerRealm
    · rw [hrealm, AList.lookup_erase]
      simp
    · rw [AList.lookup_erase_ne hrealm]
      simp only [ne_eq, hkey, hrealm, not_false_eq_true, and_self, true_and]
      rfl

theorem Grouped.dropGroups (h : m.Grouped) : (m.dropGroups c).Grouped := by
  intro key group hg
  change ((m.hostRealmConnections.erase c.self.peerRealm).erase c.peerKey).lookup key =
    some group at hg
  by_cases hkey : key = c.peerKey
  · rw [hkey, AList.lookup_erase] at hg
    cases hg
  · rw [AList.lookup_erase_ne hkey] at hg
    by_cases hrealm : key = c.self.peerRealm
    · rw [hrealm, AList.lookup_erase] at hg
      cases hg
    · rw [AList.lookup_erase_ne hrealm] at hg
      exact h _ _ hg

end

/-! ### Runs -/

/-- The three operations on the registry. -/
inductive Op
  | add (c : Connection)
  | remove (c : Connection)
  | removeById (id : String)

/-- The connections an operation is called with. -/
def Op.connections : Op → List Connection
  | add c | remove c => [c]
  | removeById _ => []

/-- One operation. -/
def apply (m : ConnectionManager) : Op → ConnectionManager
  | .add c => m.addConnection c
  | .remove c => m.removeConnection c
  | .removeById id => m.removeConnectionById id

/-- The connections added and not yet removed. -/
def Op.live (live : Set Connection) : Op → Set Connection
  | add c => insert c live
  | remove c => live \ {c}
  | removeById id => {d ∈ live | d.self.id ≠ id}

/-- A manager with the connections added to it and not yet removed. -/
structure Registry where
  manager : ConnectionManager
  live : Set Connection

/-- One operation on both. -/
def Registry.apply (r : Registry) (op : Op) : Registry :=
  ⟨r.manager.apply op, op.live r.live⟩

/-- A sequence of operations on a new manager. -/
def Registry.run (routingManager : Option RoutingConnectionManager) (ops : List Op) : Registry :=
  ops.foldl Registry.apply ⟨.new routingManager, ∅⟩

/-- Every connection added and not yet removed is found. -/
def Registry.AllFound (r : Registry) : Prop := ∀ c ∈ r.live, r.manager.Finds c

/-- No other live connection is in a group that goes with `c`. -/
def Registry.Alone (r : Registry) (c : Connection) : Prop :=
  ∀ d ∈ r.live, d ≠ c → d.peerKey ≠ c.peerKey ∧ d.peerKey ≠ c.self.peerRealm

/-- The operation removes no group of another live connection. -/
def Registry.Clear (r : Registry) : Op → Prop
  | .add _ => True
  | .remove c => r.Alone c
  | .removeById id => ∀ c, r.manager.getConnectionById id = some c → r.Alone c

/-- The registration by id agrees with the live connections, all of which are in `U`. -/
structure Registry.Valid (U : Set Connection) (r : Registry) : Prop where
  grouped : r.manager.Grouped
  subset : r.live ⊆ U
  registered : ∀ c ∈ r.live, r.manager.connections.lookup c.self.id = some c
  live : ∀ id c, r.manager.connections.lookup id = some c → c ∈ r.live ∧ c.self.id = id

namespace Registry

variable {U : Set Connection} {r : Registry} {op : Op}

theorem Valid.add {c : Connection} (h : r.Valid U) (hc : c ∈ U)
    (hU : ∀ d ∈ U, d.self.id = c.self.id → d = c) : (r.apply (.add c)).Valid U := by
  refine ⟨h.grouped.addConnection, Set.insert_subset hc h.subset, ?_, ?_⟩
  -- the new entry replaces at most one of the same id, which is the same connection
  · intro d hd
    refine (lookup_addConnection d.self.id).trans ?_
    split
    · rename_i hid
      rw [hU d (Set.insert_subset hc h.subset hd) hid]
    · rename_i hid
      rcases hd with rfl | hd
      · exact absurd rfl hid
      · exact h.registered d hd
  · intro id d hd
    replace hd := (lookup_addConnection id).symm.trans hd
    split at hd
    · rename_i hid
      obtain rfl := Option.some.inj hd
      exact ⟨Set.mem_insert _ _, hid.symm⟩
    · exact ⟨Set.mem_insert_of_mem _ (h.live id d hd).1, (h.live id d hd).2⟩

/-- The registration under an id goes, and with it what is live under the id. -/
theorem Valid.erase {m : ConnectionManager} {live : Set Connection} {id : String}
    (h : r.Valid U) (hgrouped : m.Grouped)
    (hconnections : m.connections = r.manager.connections.erase id)
    (hlive : ∀ d, d ∈ live ↔ d ∈ r.live ∧ d.self.id ≠ id) : Valid U ⟨m, live⟩ := by
  refine ⟨hgrouped, fun d hd => h.subset ((hlive d).mp hd).1, ?_, ?_⟩
  · intro d hd
    obtain ⟨hbefore, hid⟩ := (hlive d).mp hd
    rw [hconnections, AList.lookup_erase_ne hid]
    exact h.registered d hbefore
  · intro other d hd
    rw [hconnections] at hd
    have hother : other ≠ id := by
      intro heq
      rw [heq, AList.lookup_erase] at hd
      cases hd
    rw [AList.lookup_erase_ne hother] at hd
    obtain ⟨hbefore, hid⟩ := h.live other d hd
    exact ⟨(hlive d).mpr ⟨hbefore, hid.symm ▸ hother⟩, hid⟩

theorem Valid.apply (h : r.Valid U) (hU : ∀ c ∈ U, ∀ d ∈ U, c.self.id = d.self.id → c = d)
    (hop : ∀ c ∈ op.connections, c ∈ U) : (r.apply op).Valid U := by
  cases op with
  | add c =>
    have hc : c ∈ U := hop c (List.mem_singleton_self c)
    exact h.add hc fun d hd => hU d hd c hc
  | remove c =>
    have hc : c ∈ U := hop c (List.mem_singleton_self c)
    have hsame : ∀ d ∈ r.live, d = c ↔ d.self.id = c.self.id := fun d hd =>
      ⟨fun heq => heq ▸ rfl, hU d (h.subset hd) c hc⟩
    exact h.erase h.grouped.dropGroups rfl fun d =>
      and_congr_right fun hd => not_congr (hsame d hd)
  | removeById id =>
    unfold Registry.apply ConnectionManager.apply removeConnectionById
    dsimp only
    split
    · exact h.erase h.grouped.dropGroups rfl fun d => Iff.rfl
    -- no connection of the id is registered, so none is live either
    · rename_i hnone
      refine ⟨h.grouped, fun d hd => h.subset hd.1, fun d hd => h.registered d hd.1, ?_⟩
      intro id' d hd
      obtain ⟨hlive, hidd⟩ := h.live id' d hd
      refine ⟨⟨hlive, ?_⟩, hidd⟩
      intro heq
      subst heq
      rw [hidd, hd] at hnone
      cases hnone

/-- Dropping the groups of a connection leaves all others findable exactly if it was
alone in them. -/
theorem allFound_dropGroups_iff {c : Connection} {m : ConnectionManager} {rest : Set Connection}
    (hfound : r.AllFound) (hm : ∀ d, m.Finds d ↔ (r.manager.dropGroups c).Finds d)
    (hrest : ∀ d, d ∈ rest ↔ d ∈ r.live ∧ d ≠ c) : AllFound ⟨m, rest⟩ ↔ r.Alone c := by
  constructor
  · intro h d hd hne
    exact (finds_dropGroups.mp ((hm d).mp (h d ((hrest d).mpr ⟨hd, hne⟩)))).1
  · intro h d hd
    obtain ⟨hlive, hne⟩ := (hrest d).mp hd
    exact (hm d).mpr (finds_dropGroups.mpr ⟨h d hlive hne, hfound d hlive⟩)

/-- One operation keeps every live connection findable exactly if it removes no group of
another live connection. -/
theorem allFound_apply_iff (h : r.Valid U) (hfound : r.AllFound) :
    (r.apply op).AllFound ↔ r.Clear op := by
  cases op with
  | add c =>
    refine iff_of_true ?_ trivial
    intro d hd
    exact finds_addConnection h.grouped (hd.imp_right (hfound d))
  | remove c => exact allFound_dropGroups_iff hfound (fun _ => Iff.rfl) fun _ => Iff.rfl
  | removeById id =>
    unfold Registry.apply ConnectionManager.apply removeConnectionById Clear getConnectionById
    dsimp only
    cases hlookup : r.manager.connections.lookup id with
    | some c =>
      -- ids are unique among the live, so dropping an id drops one connection
      have hrest : ∀ d, d ∈ (Op.removeById id).live r.live ↔ d ∈ r.live ∧ d ≠ c := by
        intro d
        refine and_congr_right fun hd => not_congr ⟨fun hid => ?_, fun heq => ?_⟩
        · have := h.registered d hd
          rw [hid, hlookup] at this
          exact (Option.some.inj this).symm
        · rw [heq]
          exact (h.live id c hlookup).2
      simp only [Option.some.injEq, forall_eq']
      exact allFound_dropGroups_iff hfound (fun _ => Iff.rfl) hrest
    | none =>
      refine iff_of_true (fun d hd => hfound d hd.1) ?_
      intro c hc
      cases hc

variable {routingManager : Option RoutingConnectionManager} {ops done : List Op}

theorem run_concat : run routingManager (ops ++ [op]) = (run routingManager ops).apply op := by
  rw [run, List.foldl_append]
  rfl

theorem valid_run (hU : ∀ c ∈ U, ∀ d ∈ U, c.self.id = d.self.id → c = d)
    (hops : ∀ op ∈ ops, ∀ c ∈ op.connections, c ∈ U) : (run routingManager ops).Valid U := by
  induction ops using List.reverseRecOn with
  | nil =>
    exact ⟨fun _ _ h => by simp [run, ConnectionManager.new] at h, Set.empty_subset U,
      fun _ h => absurd h (Set.notMem_empty _), fun _ _ h => by simp [run, ConnectionManager.new] at h⟩
  | append_singleton ops op ih =>
    rw [run_concat]
    exact (ih fun o ho => hops o (List.mem_append_left _ ho)).apply hU
      (hops op (List.mem_append_right _ (List.mem_singleton_self op)))

/-- **Which runs keep every connection findable.** On connections with distinct ids, all
connections added and not yet removed are found under their own `host@realm` after every
prefix of a run exactly if no operation of the run removes a connection while another
live one is registered under the same `host@realm` (or under the realm alone). -/
theorem allFound_iff_clear (routingManager : Option RoutingConnectionManager) (ops : List Op)
    (hids : ∀ o₁ ∈ ops, ∀ c ∈ o₁.connections, ∀ o₂ ∈ ops, ∀ d ∈ o₂.connections,
      c.self.id = d.self.id → c = d) :
    (∀ done, done <+: ops → (run routingManager done).AllFound) ↔
      ∀ done op, done ++ [op] <+: ops → (run routingManager done).Clear op := by
  have hvalid : ∀ done, done <+: ops →
      (run routingManager done).Valid {c | ∃ op ∈ ops, c ∈ op.connections} := by
    intro done hdone
    refine valid_run ?_ fun op hop c hc => ⟨op, hdone.subset hop, hc⟩
    intro c hexists d hexists₂ hid
    obtain ⟨o₁, ho₁, hc⟩ := hexists
    obtain ⟨o₂, ho₂, hd⟩ := hexists₂
    exact hids o₁ ho₁ c hc o₂ ho₂ d hd hid
  constructor
  · intro h done op hop
    have hdone : done <+: ops := (List.prefix_append done [op]).trans hop
    have hnext := h (done ++ [op]) hop
    rw [run_concat] at hnext
    exact (allFound_apply_iff (hvalid done hdone) (h done hdone)).mp hnext
  · intro h done hdone
    induction done using List.reverseRecOn with
    | nil => exact fun c hc => absurd hc (Set.notMem_empty c)
    | append_singleton done op ih =>
      have hprefix : done <+: ops := (List.prefix_append done [op]).trans hdone
      rw [run_concat]
      exact (allFound_apply_iff (hvalid done hprefix) (ih hprefix)).mpr (h done op hdone)

/-- A connection of a peer in `example.com`. -/
def peerConnection (addr : Nat) (id host : String) : Connection :=
  leaf ⟨addr, id, host, "example.com"⟩

/-- Connections of two peers come, and one goes. -/
def twoPeers : List Op :=
  [.add (peerConnection 1 "a:1" "a"), .add (peerConnection 2 "b:1" "b"),
    .remove (peerConnection 1 "a:1" "a")]

/-- The connection of the other peer is still found. -/
theorem allFound_iff_clear_sample : (run none twoPeers).AllFound := by
  refine (allFound_iff_clear none twoPeers ?_).mpr ?_ twoPeers List.prefix_rfl
  · intro o₁ h₁ c hc o₂ h₂ d hd hid
    simp only [twoPeers, List.mem_cons, List.not_mem_nil, or_false] at h₁ h₂
    rcases h₁ with rfl | rfl | rfl <;> rcases h₂ with rfl | rfl | rfl <;>
      simp_all [Op.connections, peerConnection, Connection.self]
  · intro done op hexists
    obtain ⟨rest, hrest⟩ := hexists
    rcases done with _ | ⟨o₁, _ | ⟨o₂, _ | ⟨o₃, done⟩⟩⟩ <;>
      simp only [twoPeers, List.nil_append, List.cons_append, List.cons.injEq] at hrest
    · rw [hrest.1]
      exact trivial
    · rw [hrest.2.1]
      exact trivial
    · obtain ⟨rfl, rfl, rfl, -⟩ := hrest
      intro d hor hne
      rcases hor with rfl | rfl | hd
      · exact ⟨by decide, by decide⟩
      · exact absurd rfl hne
      · exact absurd hd (Set.notMem_empty d)
    · simp at hrest

/-- Of two connections of one peer, the removal of one loses the other. -/
theorem not_finds_same_peer :
    let r := run none [.add (peerConnection 1 "a:1" "a"), .add (peerConnection 2 "a:2" "a"),
      .remove (peerConnection 1 "a:1" "a")]
    peerConnection 2 "a:2" "a" ∈ r.live ∧ ¬r.manager.Finds (peerConnection 2 "a:2" "a") := by
  refine ⟨?_, fun h => (finds_dropGroups.mp h).1.1 rfl⟩
  exact ⟨.inl rfl, fun heq => absurd (congrArg (·.self.addr) heq) (by decide)⟩

end Registry

end ConnectionManager

end RestDiameterBridge
