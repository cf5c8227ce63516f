import RestDiameterBridge.Transport.RedirectCaches
import RestDiameterBridge.Transport.RequestConnections
import RestDiameterBridge.Transport.RoutingReach

/-!
# RestDiameterBridge.Transport.RemovedConnections

Where the registry keeps a connection, and that a removal finds all of it
(`src/transport/connection_manager.rs`, `routing_connection.rs`).

`ConnectionManager.Stores` is the union of the places: the registration by id, the groups,
and the slots of the routes. A connection is only ever put where its removal looks for it
(`Tidy`), so nothing is left of it afterwards (`not_stores_apply`), and what is not stored
is not handed out (`stores_of_handedOut`).
-/

namespace RestDiameterBridge

open Connection

/-- A leaf of the connection is among the leaves found. -/
def Connection.LeafIn (c : Connection) (found : List Connection) : Prop :=
  ∃ l ∈ c.leaves, l ∈ leavesList found

/-- The connections have a common leaf. -/
def Connection.Meets (c d : Connection) : Prop := ∃ l ∈ c.leaves, l ∈ d.leaves

theorem Connection.leafIn_iff {c : Connection} {found : List Connection} :
    c.LeafIn found ↔ ∃ d ∈ found, c.Meets d := by
  simp only [LeafIn, Meets, leavesList_eq_flatMap, List.mem_flatMap]
  tauto

/-- The ids of a connection and of the leaves under it. -/
def Connection.ids (c : Connection) : List String := c.self.id :: c.leaves.map (·.self.id)

/-- Two connections with a common leaf have a common id. -/
theorem Connection.Meets.not_disjoint_ids {c d : Connection} (h : c.Meets d) :
    ¬c.ids.Disjoint d.ids := by
  obtain ⟨l, hc, hd⟩ := h
  intro hdisjoint
  have hmem : ∀ {e : Connection}, l ∈ e.leaves → l.self.id ∈ e.ids := fun he =>
    List.mem_cons_of_mem _ (List.mem_map_of_mem he)
  exact hdisjoint (hmem hc) (hmem hd)

/-! ### The slots of a route -/

namespace RoutingConnection

/-- The connection is in one of the slots. -/
def Stores (rc : RoutingConnection) (c : Connection) : Prop := ∃ a, c ∈ rc.members a

/-- The slot is named after the peer of the connection. -/
def SlotOf (rc : RoutingConnection) (c : Connection) (a : Nat) : Prop :=
  rc.hostRealmConnections.lookup c.peerKey = some a ∨
    rc.hostRealmConnections.lookup c.self.peerRealm = some a

/-- What is in a slot is there under the name of its peer. -/
def Placed (rc : RoutingConnection) : Prop := ∀ a, ∀ c ∈ rc.members a, rc.SlotOf c a

variable {rc : RoutingConnection} {c d : Connection} {f : List Connection → List Connection} {a : Nat}

theorem slotOf_updateSlotsOf : (rc.updateSlotsOf c f).SlotOf d a ↔ rc.SlotOf d a := by
  have hnames : (rc.updateSlotsOf c f).hostRealmConnections = rc.hostRealmConnections :=
    congrArg (·.2) shape_updateSlotsOf
  rw [SlotOf, SlotOf, hnames]

/-- An update is made once or twice in the slots of the peer, and not elsewhere. -/
theorem members_updateSlotsOf (rc : RoutingConnection) (c : Connection)
    (f : List Connection → List Connection) (a : Nat) :
    ¬rc.SlotOf c a ∧ (rc.updateSlotsOf c f).members a = rc.members a ∨
      rc.SlotOf c a ∧ ((rc.updateSlotsOf c f).members a = f (rc.members a) ∨
        (rc.updateSlotsOf c f).members a = f (f (rc.members a))) := by
  have hnames : (rc.updateSlotAt c.peerKey f).hostRealmConnections = rc.hostRealmConnections :=
    congrArg (·.2) shape_updateSlotAt
  rw [updateSlotsOf, members_updateSlotAt, members_updateSlotAt, hnames]
  by_cases hkey : rc.hostRealmConnections.lookup c.peerKey = some a <;>
    by_cases hrealm : rc.hostRealmConnections.lookup c.self.peerRealm = some a <;>
    simp [SlotOf, hkey, hrealm]

theorem mem_addConnection (h : d ∈ (rc.addConnection c).members a) :
    d ∈ rc.members a ∨ d = c ∧ rc.SlotOf c a := by
  rcases members_updateSlotsOf rc c (· ++ [c]) a with ⟨-, heq⟩ | ⟨hslot, heq | heq⟩
  · exact .inl (heq ▸ h)
  all_goals
    rw [addConnection, heq] at h
    simp only [List.mem_append, List.mem_singleton] at h
    tauto

theorem mem_removeConnection (h : d ∈ (rc.removeConnection c).members a) :
    d ∈ rc.members a ∧ (d = c → ¬rc.SlotOf c a) := by
  rcases members_updateSlotsOf rc c (·.filter fun conn => conn.self.addr ≠ c.self.addr) a with
    ⟨hslot, heq⟩ | ⟨-, heq | heq⟩
  · exact ⟨heq ▸ h, fun _ => hslot⟩
  all_goals
    rw [removeConnection, heq] at h
    simp only [List.mem_filter, decide_eq_true_eq] at h
    refine ⟨by tauto, ?_⟩
    rintro rfl
    tauto

theorem Placed.addConnection (h : rc.Placed) (c : Connection) : (rc.addConnection c).Placed := by
  intro a d hd
  rw [RoutingConnection.addConnection, slotOf_updateSlotsOf]
  rcases mem_addConnection hd with hd | ⟨rfl, hslot⟩
  · exact h a d hd
  · exact hslot

theorem Placed.removeConnection (h : rc.Placed) (c : Connection) : (rc.removeConnection c).Placed := by
  intro a d hd
  rw [RoutingConnection.removeConnection, slotOf_updateSlotsOf]
  exact h a d (mem_removeConnection hd).1

theorem stores_addConnection (h : (rc.addConnection c).Stores d) : rc.Stores d ∨ d = c := by
  obtain ⟨a, ha⟩ := h
  exact (mem_addConnection ha).imp (fun ha => ⟨a, ha⟩) And.left

theorem stores_removeConnection (h : (rc.removeConnection c).Stores d) : rc.Stores d := by
  obtain ⟨a, ha⟩ := h
  exact ⟨a, (mem_removeConnection ha).1⟩

/-- A connection is taken out of every slot it is in. -/
theorem Placed.not_stores_removeConnection (h : rc.Placed) : ¬(rc.removeConnection c).Stores c := by
  intro hstores
  obtain ⟨a, ha⟩ := hstores
  obtain ⟨hmem, hslot⟩ := mem_removeConnection ha
  exact hslot rfl (h a c hmem)

/-- The leaves of the route are those of the connections in its slots. -/
theorem exists_stores_of_meets (h : c.Meets (rc.connection.toConnection rc.members)) :
    ∃ d, rc.Stores d ∧ c.Meets d := by
  obtain ⟨l, hl, hleaves⟩ := h
  obtain ⟨a, -, hmem⟩ := (Route.mem_leaves_toConnection _).mp hleaves
  obtain ⟨d, hd, hmeets⟩ := Connection.leafIn_iff.mp ⟨l, hl, hmem⟩
  exact ⟨d, ⟨a, hd⟩, hmeets⟩

theorem meets_of_leafIn {s : Balancers} (h : c.LeafIn (rc.getConnections s).1) :
    c.Meets (rc.connection.toConnection rc.members) := by
  obtain ⟨l, hl, hfound⟩ := h
  refine ⟨l, hl, ?_⟩
  rw [RoutingConnection.getConnections] at hfound
  generalize rc.connection.toConnection rc.members = conn at hfound
  cases conn with
  | leaf self => simp [Connection.getConnections, leavesList] at hfound
  | container kind self connections =>
    rw [leavesList_eq_flatMap,
      ((getConnections_perm s kind self connections).flatMap_right leaves).mem_iff] at hfound
    rwa [leaves, leavesList_eq_flatMap]

end RoutingConnection

/-! ### The routes -/

namespace RoutingConnectionManager

/-- The routes of the items and the default route. -/
def routes (m : RoutingConnectionManager) : List RoutingConnection :=
  m.created ++ m.defaultRoutingConnection.toList

/-- The connection is in a slot of a route. -/
def Stores (m : RoutingConnectionManager) (c : Connection) : Prop := ∃ rc ∈ m.routes, rc.Stores c

/-- Route `i` is listed under the peer of the connection. -/
def RouteOf (m : RoutingConnectionManager) (c : Connection) (i : Nat) : Prop :=
  m.routeOf c.self.peerRealm = some i ∨ m.routeOf c.peerKey = some i

/-- What is in a route is there under the peer's name, and the route is listed under it. -/
structure Placed (m : RoutingConnectionManager) : Prop where
  slots : ∀ rc ∈ m.routes, rc.Placed
  listed : ∀ (i : Nat) rc, m.created[i]? = some rc → ∀ c, rc.Stores c → m.RouteOf c i

variable {m : RoutingConnectionManager} {c d : Connection} {rc : RoutingConnection}
  {f : RoutingConnection → RoutingConnection} {i : Nat}

theorem mem_routes : rc ∈ m.routes ↔
    (∃ i : Nat, m.created[i]? = some rc) ∨ m.defaultRoutingConnection = some rc := by
  rw [routes, List.mem_append, List.mem_iff_getElem?, Option.mem_toList]

/-- An update is made once or twice in the routes listed under the peer, and not in the
others. -/
theorem created_updateRoutesOf (h : (m.updateRoutesOf c f).created[i]? = some rc) :
    ∃ before, m.created[i]? = some before ∧
      (¬m.RouteOf c i ∧ rc = before ∨ m.RouteOf c i ∧ (rc = f before ∨ rc = f (f before))) := by
  have hroute : (m.updateRouteAt c.self.peerRealm f).routeOf c.peerKey = m.routeOf c.peerKey := by
    unfold updateRouteAt routeOf
    split <;> rfl
  change ((m.updateRouteAt c.self.peerRealm f).updateRouteAt c.peerKey f).created[i]? = some rc at h
  rw [created_updateRouteAt, created_updateRouteAt, hroute] at h
  cases hbefore : m.created[i]? with
  | none => simp [hbefore] at h
  | some before =>
    refine ⟨before, rfl, ?_⟩
    by_cases hrealm : m.routeOf c.self.peerRealm = some i <;>
      by_cases hkey : m.routeOf c.peerKey = some i <;>
      simp_all [RouteOf]

theorem defaultRoutingConnection_updateRoutesOf :
    (m.updateRoutesOf c f).defaultRoutingConnection = m.defaultRoutingConnection.map f := by
  have hsame : ∀ (m : RoutingConnectionManager) key,
      (m.updateRouteAt key f).defaultRoutingConnection = m.defaultRoutingConnection := by
    intro m key
    unfold updateRouteAt
    split <;> rfl
  rw [updateRoutesOf, hsame, hsame]

theorem routeOf_updateRoutesOf : (m.updateRoutesOf c f).RouteOf d i ↔ m.RouteOf d i := by
  have hroute : ∀ (m : RoutingConnectionManager) key name, (m.updateRouteAt key f).routeOf name =
      m.routeOf name := by
    intro m key name
    unfold updateRouteAt routeOf
    split <;> rfl
  have hall : ∀ name, (m.updateRoutesOf c f).routeOf name = m.routeOf name := fun name =>
    (hroute _ _ name).trans (hroute _ _ name)
  rw [RouteOf, RouteOf, hall, hall]

/-- A route after an update: an untouched one is not listed under the peer. -/
theorem mem_routes_updateRoutesOf (h : rc ∈ (m.updateRoutesOf c f).routes) :
    ∃ before ∈ m.routes, rc = before ∨ rc = f before ∨ rc = f (f before) := by
  rcases mem_routes.mp h with ⟨i, hi⟩ | hdefault
  · obtain ⟨before, hbefore, hrc⟩ := created_updateRoutesOf hi
    exact ⟨before, mem_routes.mpr (.inl ⟨i, hbefore⟩), by tauto⟩
  · rw [defaultRoutingConnection_updateRoutesOf] at hdefault
    obtain ⟨before, hbefore, rfl⟩ := Option.map_eq_some_iff.mp hdefault
    exact ⟨before, mem_routes.mpr (.inr hbefore), .inr (.inl rfl)⟩

theorem Placed.addConnection (h : m.Placed) (c : Connection) : (m.addConnection c).Placed where
  slots := by
    intro rc hrc
    obtain ⟨before, hbefore, rfl | rfl | rfl⟩ := mem_routes_updateRoutesOf hrc
    · exact h.slots rc hbefore
    · exact (h.slots before hbefore).addConnection c
    · exact ((h.slots before hbefore).addConnection c).addConnection c
  listed := by
    intro i rc hi d hd
    rw [RoutingConnectionManager.addConnection, routeOf_updateRoutesOf]
    obtain ⟨before, hbefore, ⟨-, rfl⟩ | ⟨hlisted, hrc⟩⟩ := created_updateRoutesOf hi
    · exact h.listed i rc hbefore d hd
    · have hor : before.Stores d ∨ d = c := by
        rcases hrc with rfl | rfl
        · exact RoutingConnection.stores_addConnection hd
        · exact (RoutingConnection.stores_addConnection hd).elim
            RoutingConnection.stores_addConnection .inr
      rcases hor with hd | rfl
      · exact h.listed i before hbefore d hd
      · exact hlisted

theorem stores_addConnection (h : (m.addConnection c).Stores d) : m.Stores d ∨ d = c := by
  obtain ⟨rc, hrc, hd⟩ := h
  obtain ⟨before, hbefore, rfl | rfl | rfl⟩ := mem_routes_updateRoutesOf hrc
  · exact .inl ⟨rc, hbefore, hd⟩
  · exact (RoutingConnection.stores_addConnection hd).imp_left fun hd => ⟨before, hbefore, hd⟩
  · refine (RoutingConnection.stores_addConnection hd).elim (fun hd => ?_) .inr
    exact (RoutingConnection.stores_addConnection hd).imp_left fun hd => ⟨before, hbefore, hd⟩

theorem stores_removeConnection (h : (m.removeConnection c).Stores d) : m.Stores d := by
  obtain ⟨rc, hrc, hd⟩ := h
  obtain ⟨before, hbefore, rfl | rfl | rfl⟩ := mem_routes_updateRoutesOf hrc
  · exact ⟨rc, hbefore, hd⟩
  · exact ⟨before, hbefore, RoutingConnection.stores_removeConnection hd⟩
  · exact ⟨before, hbefore, RoutingConnection.stores_removeConnection
      (RoutingConnection.stores_removeConnection hd)⟩

theorem Placed.removeConnection (h : m.Placed) (c : Connection) :
    (m.removeConnection c).Placed where
  slots := by
    intro rc hrc
    obtain ⟨before, hbefore, rfl | rfl | rfl⟩ := mem_routes_updateRoutesOf hrc
    · exact h.slots rc hbefore
    · exact (h.slots before hbefore).removeConnection c
    · exact ((h.slots before hbefore).removeConnection c).removeConnection c
  listed := by
    intro i rc hi d hd
    rw [RoutingConnectionManager.removeConnection, routeOf_updateRoutesOf]
    obtain ⟨before, hbefore, ⟨-, rfl⟩ | ⟨-, rfl | rfl⟩⟩ := created_updateRoutesOf hi
    · exact h.listed i rc hbefore d hd
    · exact h.listed i before hbefore d (RoutingConnection.stores_removeConnection hd)
    · exact h.listed i before hbefore d (RoutingConnection.stores_removeConnection
        (RoutingConnection.stores_removeConnection hd))

/-- A connection is taken out of every route it is in. -/
theorem Placed.not_stores_removeConnection (h : m.Placed) : ¬(m.removeConnection c).Stores c := by
  intro hstores
  obtain ⟨rc, hrc, hc⟩ := hstores
  rcases mem_routes.mp hrc with ⟨i, hi⟩ | hdefault
  · obtain ⟨before, hbefore, hcases⟩ := created_updateRoutesOf hi
    have hplaced := h.slots before (mem_routes.mpr (.inl ⟨i, hbefore⟩))
    rcases hcases with ⟨hlisted, rfl⟩ | ⟨-, rfl | rfl⟩
    · exact hlisted (h.listed i rc hbefore c hc)
    · exact hplaced.not_stores_removeConnection hc
    · exact (hplaced.removeConnection c).not_stores_removeConnection hc
  · rw [RoutingConnectionManager.removeConnection,
      defaultRoutingConnection_updateRoutesOf] at hdefault
    obtain ⟨before, hbefore, rfl⟩ := Option.map_eq_some_iff.mp hdefault
    exact (h.slots before (mem_routes.mpr (.inr hbefore))).not_stores_removeConnection hc

theorem defaultRoutingConnection_foldlM {items : List RoutingItemConfig}
    {m' : RoutingConnectionManager} (h : items.foldlM addItem m = some m') :
    m'.defaultRoutingConnection = m.defaultRoutingConnection := by
  induction items generalizing m with
  | nil =>
    obtain rfl := Option.some.inj h
    rfl
  | cons item items ih =>
    rw [List.foldlM_cons] at h
    obtain ⟨m₁, hadd, hrest⟩ := Option.bind_eq_some_iff.mp h
    obtain ⟨conn, -, rfl⟩ := Option.map_eq_some_iff.mp hadd
    exact (ih hrest).trans rfl

/-- Nothing is in the routes of a configuration. -/
theorem not_stores_new {stackRouting : StackRoutingConfig} (h : new stackRouting = some m) :
    ¬m.Stores c := by
  intro hstores
  obtain ⟨rc, hrc, a, hc⟩ := hstores
  rcases mem_routes.mp hrc with ⟨i, hi⟩ | hdefault
  · rw [(built_new h).members_created hi a] at hc
    cases hc
  · unfold new at h
    split at h
    · cases h
    · rename_i default hdef
      rw [defaultRoutingConnection_foldlM h] at hdefault
      obtain rfl : default = some rc := hdefault
      cases hroute : stackRouting.default with
      | none => simp [hroute] at hdef
      | some route =>
        rw [hroute] at hdef
        obtain ⟨conn, hconn, hsome⟩ := Option.map_eq_some_iff.mp hdef
        obtain rfl := Option.some.inj hsome
        rw [members_new hconn a] at hc
        cases hc

theorem placed_new {stackRouting : StackRoutingConfig} (h : new stackRouting = some m) :
    m.Placed where
  slots := fun rc hrc a c hc => absurd ⟨rc, hrc, a, hc⟩ (not_stores_new (c := c) h)
  listed := fun i rc hi c hc =>
    absurd ⟨rc, mem_routes.mpr (.inl ⟨i, hi⟩), hc⟩ (not_stores_new (c := c) h)

/-- What a command is handed is from one of the routes. -/
theorem exists_meets_of_leafIn {s : Balancers} {command : Command}
    (h : c.LeafIn (m.getConnectionsForCommand s command).1) :
    ∃ rc ∈ m.routes, c.Meets (rc.connection.toConnection rc.members) := by
  have hdefault : c.LeafIn (m.getDefaultConnections s).1 →
      ∃ rc ∈ m.routes, c.Meets (rc.connection.toConnection rc.members) := by
    intro h
    unfold getDefaultConnections at h
    split at h
    next rc hrc => exact ⟨rc, mem_routes.mpr (.inr hrc), RoutingConnection.meets_of_leafIn h⟩
    · simp [LeafIn, leavesList] at h
  unfold getConnectionsForCommand at h
  split at h
  · split at h
    · exact ⟨_, List.mem_append_left _ (List.get_mem _ _), RoutingConnection.meets_of_leafIn h⟩
    · exact hdefault h
  · exact hdefault h

end RoutingConnectionManager

/-! ### The registry -/

/-- The leaves of several connections, one connection after the other. -/
def underlyingConnections (s : Balancers) : List Connection → List Connection × Balancers
  | [] => ([], s)
  | c :: cs =>
      let (found, s) := getUnderlyingConnections s c
      let (rest, s) := underlyingConnections s cs
      (found ++ rest, s)

theorem underlyingConnections_perm (s : Balancers) (cs : List Connection) :
    (underlyingConnections s cs).1.Perm (leavesList cs) := by
  induction cs generalizing s with
  | nil => exact .refl _
  | cons c cs ih =>
    rw [leavesList]
    exact (getUnderlyingConnections_perm s c).append (ih _)

mutual
theorem leavesList_leaves (c : Connection) : leavesList c.leaves = c.leaves := by
  match c with
  | leaf self => rfl
  | container kind self connections =>
    rw [leaves]
    exact leavesList_leavesList connections
theorem leavesList_leavesList (cs : List Connection) :
    leavesList (leavesList cs) = leavesList cs := by
  match cs with
  | [] => rfl
  | c :: cs =>
    rw [leavesList, leavesList_eq_flatMap, List.flatMap_append, ← leavesList_eq_flatMap,
      ← leavesList_eq_flatMap, leavesList_leaves c, leavesList_leavesList cs]
end

namespace ConnectionManager

/-- The connections to peers with one of the host names, the registered connections taken in
the order of the entries. -/
def getConnectionsByHosts (m : ConnectionManager) (s : Balancers) (hosts : List String) :
    Option (List Connection) × Balancers :=
  let connections := (m.connections.entries.map (·.2)).filter fun conn =>
    hosts.contains conn.self.peerHost
  let (result, s) := underlyingConnections s connections
  (if result.isEmpty then none else some result, s)

/-- The connections a cached redirect of the request leads to. -/
def getRedirectConnections (m : ConnectionManager) (caches : RedirectCaches) (now : Nat)
    (s : Balancers) (request : Command) : Option (List Connection) × Balancers :=
  match (caches.getRedirect now request).1 with
  | some redirectHosts => m.getConnectionsByHosts s redirectHosts
  | none => (none, s)

/-- The ways to get at a connection. -/
inductive HandedOut (m : ConnectionManager) (c : Connection) : Prop
  | byId (id : String) (d : Connection) :
      m.getConnectionById id = some d → d = c ∨ c.Meets d → HandedOut m c
  | byHostRealm (host realm : String) (group : Connection) :
      m.getConnectionByHostRealm host realm = some group → c ∈ group.members ∨ c.Meets group →
      HandedOut m c
  | byHosts (hosts : List String) (s : Balancers) (found : List Connection) :
      (m.getConnectionsByHosts s hosts).1 = some found → c.LeafIn found → HandedOut m c
  /-- Through the slots of the route of an item, or of the default route. -/
  | byRoute (r : RoutingConnectionManager) (rc : RoutingConnection) :
      m.routingManager = some r → rc ∈ r.routes →
      rc.Stores c ∨ c.Meets (rc.connection.toConnection rc.members) → HandedOut m c
  | byRequest (caches : RedirectCaches) (now : Nat) (s : Balancers) (request : Command)
      (found : List Connection) :
      (m.getConnectionsForRequest (m.getRedirectConnections caches now s request).1
        (m.getRedirectConnections caches now s request).2 request).1 = .ok found →
      c.LeafIn found → HandedOut m c

/-- The connection is registered under an id, in a group, or in a slot of a route. -/
def Stores (m : ConnectionManager) (c : Connection) : Prop :=
  (∃ id, m.connections.lookup id = some c) ∨
    (∃ key group, m.hostRealmConnections.lookup key = some group ∧ c ∈ group.members) ∨
    ∃ r, m.routingManager = some r ∧ r.Stores c

variable {m : ConnectionManager} {c d : Connection}

theorem exists_stores_of_byHosts {s : Balancers} {hosts : List String} {found : List Connection}
    (h : (m.getConnectionsByHosts s hosts).1 = some found) (hc : c.LeafIn found) :
    ∃ d, m.Stores d ∧ c.Meets d := by
  unfold getConnectionsByHosts at h
  dsimp only at h
  split at h
  · cases h
  · obtain rfl := Option.some.inj h
    obtain ⟨l, hl, hfound⟩ := hc
    rw [leavesList_eq_flatMap, ((underlyingConnections_perm s _).flatMap_right leaves).mem_iff,
      ← leavesList_eq_flatMap, leavesList_leavesList] at hfound
    obtain ⟨d, hd, hmeets⟩ := Connection.leafIn_iff.mp ⟨l, hl, hfound⟩
    obtain ⟨⟨id, _⟩, he, rfl⟩ := List.mem_map.mp (List.mem_filter.mp hd).1
    exact ⟨_, .inl ⟨id, AList.mem_lookup_iff.mpr he⟩, hmeets⟩

/-- The leaves of a group are those of its members. -/
theorem exists_mem_of_meets {group : Connection} (hgroup : group.isContainer = true)
    (h : c.Meets group) : ∃ d ∈ group.members, c.Meets d := by
  cases group with
  | leaf self => cases hgroup
  | container kind self connections => exact Connection.leafIn_iff.mp h

theorem meets_of_leafIn_underlying {s : Balancers}
    (h : c.LeafIn (getUnderlyingConnections s d).1) : c.Meets d := by
  obtain ⟨l, hl, hfound⟩ := h
  rw [leavesList_eq_flatMap, ((getUnderlyingConnections_perm s d).flatMap_right leaves).mem_iff,
    ← leavesList_eq_flatMap, leavesList_leaves] at hfound
  exact ⟨l, hl, hfound⟩

/-- What is handed out is stored, or has a leaf in common with what is. -/
theorem exists_stores_of_handedOut (hm : m.Grouped) (h : m.HandedOut c) :
    ∃ d, m.Stores d ∧ (d = c ∨ c.Meets d) := by
  have hgroup : ∀ key group, m.hostRealmConnections.lookup key = some group →
      c ∈ group.members ∨ c.Meets group → ∃ d, m.Stores d ∧ (d = c ∨ c.Meets d) := by
    intro key group hlookup hor
    rcases hor with hmem | hmeets
    · exact ⟨c, .inr (.inl ⟨key, group, hlookup, hmem⟩), .inl rfl⟩
    · obtain ⟨d, hd, hmeets⟩ := exists_mem_of_meets (hm key group hlookup) hmeets
      exact ⟨d, .inr (.inl ⟨key, group, hlookup, hd⟩), .inr hmeets⟩
  have hroute : ∀ r rc, m.routingManager = some r → rc ∈ r.routes →
      c.Meets (rc.connection.toConnection rc.members) → ∃ d, m.Stores d ∧ (d = c ∨ c.Meets d) := by
    intro r rc hr hrc hmeets
    obtain ⟨d, hd, hmeets⟩ := RoutingConnection.exists_stores_of_meets hmeets
    exact ⟨d, .inr (.inr ⟨r, hr, rc, hrc, hd⟩), .inr hmeets⟩
  cases h with
  | byId id d hlookup hor => exact ⟨d, .inl ⟨id, hlookup⟩, hor⟩
  | byHostRealm host realm group hlookup hor => exact hgroup _ group hlookup hor
  | byHosts hosts s found hfound hc =>
    obtain ⟨d, hd, hmeets⟩ := exists_stores_of_byHosts hfound hc
    exact ⟨d, hd, .inr hmeets⟩
  | byRoute r rc hr hrc hor =>
    rcases hor with hstores | hmeets
    · exact ⟨c, .inr (.inr ⟨r, hr, rc, hrc, hstores⟩), .inl rfl⟩
    · exact hroute r rc hr hrc hmeets
  | byRequest caches now s request found hfound hc =>
    unfold getConnectionsForRequest at hfound
    dsimp only at hfound
    split at hfound
    next connections hredirect =>
      unfold getRedirectConnections at hredirect
      split at hredirect
      · obtain rfl := Except.ok.inj hfound
        obtain ⟨d, hd, hmeets⟩ := exists_stores_of_byHosts hredirect hc
        exact ⟨d, hd, .inr hmeets⟩
      · cases hredirect
    split at hfound
    next group hlookup =>
      obtain rfl := Except.ok.inj hfound
      exact hgroup _ group hlookup (.inr (meets_of_leafIn_underlying hc))
    split at hfound
    next r hr =>
      obtain rfl := Except.ok.inj hfound
      obtain ⟨rc, hrc, hmeets⟩ := RoutingConnectionManager.exists_meets_of_leafIn hc
      exact hroute r rc hr hrc hmeets
    · cases hfound

/-! ### Adding and removing -/

/-- What is stored is registered under its id, grouped with its peer, and in slots named
after its peer; no two connections of `U` have an id in common. -/
structure Tidy (U : Set Connection) (m : ConnectionManager) : Prop where
  subset : ∀ c, m.Stores c → c ∈ U
  registered : ∀ c, m.Stores c → m.connections.lookup c.self.id = some c
  keyed : ∀ id c, m.connections.lookup id = some c → c.self.id = id
  grouped : m.Grouped
  peers : ∀ key group, m.hostRealmConnections.lookup key = some group →
    ∀ c ∈ group.members, key = c.peerKey
  placed : ∀ r, m.routingManager = some r → r.Placed

variable {U : Set Connection} {op : Op}

theorem routingManager_addConnection :
    (m.addConnection c).routingManager = m.routingManager.map (·.addConnection c) := by
  unfold addConnection
  dsimp only
  split <;> rfl

/-- The members of a group after an addition. -/
theorem mem_members_addConnection (hm : m.Grouped) {key : String} {group : Connection}
    (hgroup : (m.addConnection c).hostRealmConnections.lookup key = some group)
    (hd : d ∈ group.members) :
    (∃ before, m.hostRealmConnections.lookup key = some before ∧ d ∈ before.members) ∨
      d = c ∧ key = c.peerKey := by
  by_cases hkey : key = c.peerKey
  · subst hkey
    rw [lookup_peerKey_addConnection] at hgroup
    rw [← Option.some.inj hgroup] at hd
    cases hbefore : m.hostRealmConnections.lookup c.peerKey with
    | none =>
      rw [hbefore, Option.getD_none, mem_addMember rfl] at hd
      exact .inr ⟨hd.resolve_left List.not_mem_nil, rfl⟩
    | some before =>
      rw [hbefore, Option.getD_some, mem_addMember (hm _ _ hbefore)] at hd
      exact hd.imp (fun hd => ⟨before, rfl, hd⟩) fun hd => ⟨hd, rfl⟩
  · rw [lookup_addConnection_of_ne hkey] at hgroup
    exact .inl ⟨group, hgroup, hd⟩

/-- An addition stores nothing but its connection. -/
theorem stores_addConnection (hm : m.Grouped) (h : (m.addConnection c).Stores d) :
    m.Stores d ∨ d = c := by
  rcases h with ⟨id, hid⟩ | ⟨key, group, hgroup, hd⟩ | ⟨r, hr, hd⟩
  · rw [lookup_addConnection] at hid
    split at hid
    · exact .inr (Option.some.inj hid).symm
    · exact .inl (.inl ⟨id, hid⟩)
  · rcases mem_members_addConnection hm hgroup hd with ⟨before, hbefore, hd⟩ | ⟨hd, -⟩
    · exact .inl (.inr (.inl ⟨key, before, hbefore, hd⟩))
    · exact .inr hd
  · rw [routingManager_addConnection] at hr
    obtain ⟨before, hbefore, rfl⟩ := Option.map_eq_some_iff.mp hr
    exact (RoutingConnectionManager.stores_addConnection hd).imp_left fun hd =>
      .inr (.inr ⟨before, hbefore, hd⟩)

theorem Tidy.addConnection (h : m.Tidy U) (hc : c ∈ U)
    (hU : ∀ c ∈ U, ∀ d ∈ U, c.self.id = d.self.id → c = d) : (m.addConnection c).Tidy U where
  subset := fun d hd => (stores_addConnection h.grouped hd).elim (h.subset d) fun hd => hd ▸ hc
  registered := by
    intro d hd
    rw [lookup_addConnection]
    rcases stores_addConnection h.grouped hd with hd | rfl
    · split
      next hid => rw [hU d (h.subset d hd) c hc hid]
      · exact h.registered d hd
    · rw [if_pos rfl]
  keyed := by
    intro id d hd
    rw [lookup_addConnection] at hd
    split at hd
    next hid => rw [← Option.some.inj hd, hid]
    · exact h.keyed id d hd
  grouped := h.grouped.addConnection
  peers := by
    intro key group hgroup d hd
    rcases mem_members_addConnection h.grouped hgroup hd with ⟨before, hbefore, hd⟩ | ⟨rfl, hkey⟩
    · exact h.peers key before hbefore d hd
    · exact hkey
  placed := by
    intro r hr
    rw [routingManager_addConnection] at hr
    obtain ⟨before, hbefore, rfl⟩ := Option.map_eq_some_iff.mp hr
    exact (h.placed before hbefore).addConnection c

/-- What both removals leave: all places without the connection. -/
def without (m : ConnectionManager) (c : Connection) : ConnectionManager :=
  { m with connections := m.connections.erase c.self.id }.dropGroups c

theorem lookup_groups_without {key : String} {group : Connection}
    (h : (m.without c).hostRealmConnections.lookup key = some group) :
    key ≠ c.peerKey ∧ m.hostRealmConnections.lookup key = some group := by
  change ((m.hostRealmConnections.erase c.self.peerRealm).erase c.peerKey).lookup key =
    some group at h
  have hkey : key ≠ c.peerKey := by
    rintro rfl
    rw [AList.lookup_erase] at h
    cases h
  have hrealm : key ≠ c.self.peerRealm := by
    rintro rfl
    rw [AList.lookup_erase_ne hkey, AList.lookup_erase] at h
    cases h
  rw [AList.lookup_erase_ne hkey, AList.lookup_erase_ne hrealm] at h
  exact ⟨hkey, h⟩

theorem lookup_without {id : String} (h : (m.without c).connections.lookup id = some d) :
    id ≠ c.self.id ∧ m.connections.lookup id = some d := by
  change (m.connections.erase c.self.id).lookup id = some d at h
  have hid : id ≠ c.self.id := by
    rintro rfl
    rw [AList.lookup_erase] at h
    cases h
  rw [AList.lookup_erase_ne hid] at h
  exact ⟨hid, h⟩

theorem stores_without (h : (m.without c).Stores d) : m.Stores d := by
  rcases h with ⟨id, hid⟩ | ⟨key, group, hgroup, hd⟩ | ⟨r, hr, hd⟩
  · exact .inl ⟨id, (lookup_without hid).2⟩
  · exact .inr (.inl ⟨key, group, (lookup_groups_without hgroup).2, hd⟩)
  · obtain ⟨before, hbefore, rfl⟩ := Option.map_eq_some_iff.mp hr
    exact .inr (.inr ⟨before, hbefore, RoutingConnectionManager.stores_removeConnection hd⟩)

/-- A removal finds the connection wherever it is stored. -/
theorem Tidy.not_stores_without (h : m.Tidy U) : ¬(m.without c).Stores c := by
  intro hstores
  rcases hstores with ⟨id, hid⟩ | ⟨key, group, hgroup, hc⟩ | ⟨r, hr, hc⟩
  · obtain ⟨hne, hlookup⟩ := lookup_without hid
    exact hne (h.keyed id c hlookup).symm
  · obtain ⟨hkey, hlookup⟩ := lookup_groups_without hgroup
    exact hkey (h.peers key group hlookup c hc)
  · obtain ⟨before, hbefore, rfl⟩ := Option.map_eq_some_iff.mp hr
    exact (h.placed before hbefore).not_stores_removeConnection hc

theorem Tidy.without (h : m.Tidy U) (hc : c ∈ U)
    (hU : ∀ c ∈ U, ∀ d ∈ U, c.self.id = d.self.id → c = d) : (m.without c).Tidy U where
  subset := fun d hd => h.subset d (stores_without hd)
  registered := by
    intro d hd
    have hid : d.self.id ≠ c.self.id := by
      intro hid
      obtain rfl := hU d (h.subset d (stores_without hd)) c hc hid
      exact h.not_stores_without hd
    exact (AList.lookup_erase_ne hid).trans (h.registered d (stores_without hd))
  keyed := fun id d hd => h.keyed id d (lookup_without hd).2
  grouped := by
    intro key group hgroup
    exact h.grouped key group (lookup_groups_without hgroup).2
  peers := fun key group hgroup => h.peers key group (lookup_groups_without hgroup).2
  placed := by
    intro r hr
    obtain ⟨before, hbefore, rfl⟩ := Option.map_eq_some_iff.mp hr
    exact (h.placed before hbefore).removeConnection c

/-- The operation removes the connection. -/
def Op.Removes (op : Op) (c : Connection) : Prop := op = .remove c ∨ op = .removeById c.self.id

/-- The connection an operation adds. -/
def Op.added : Op → Option Connection
  | .add c => some c
  | .remove _ | .removeById _ => none

/-- A removal by id is one of the connection registered under it, if there is one. -/
theorem removeConnectionById_cases (hm : m.Tidy U) (id : String) :
    (∃ c, m.Stores c ∧ c.self.id = id ∧ m.removeConnectionById id = m.without c) ∨
      m.connections.lookup id = none ∧ m.removeConnectionById id = m := by
  unfold removeConnectionById
  split
  next c hc =>
    obtain rfl := hm.keyed id c hc
    exact .inl ⟨c, .inl ⟨_, hc⟩, rfl, rfl⟩
  next hnone => exact .inr ⟨hnone, rfl⟩

theorem Tidy.apply (h : m.Tidy U) (hop : ∀ c ∈ op.connections, c ∈ U)
    (hU : ∀ c ∈ U, ∀ d ∈ U, c.self.id = d.self.id → c = d) : (m.apply op).Tidy U := by
  cases op with
  | add c => exact h.addConnection (hop c (List.mem_singleton_self c)) hU
  | remove c => exact h.without (hop c (List.mem_singleton_self c)) hU
  | removeById id =>
    obtain ⟨c, hc, -, heq⟩ | ⟨-, heq⟩ := removeConnectionById_cases h id
    · rw [ConnectionManager.apply, heq]
      exact h.without (h.subset c hc) hU
    · rwa [ConnectionManager.apply, heq]

/-- An operation stores nothing but what it adds. -/
theorem Tidy.stores_apply (h : m.Tidy U) (hd : (m.apply op).Stores d) : m.Stores d ∨ op = .add d := by
  cases op with
  | add c => exact (stores_addConnection h.grouped hd).imp_right fun heq => by rw [heq]
  | remove c => exact .inl (stores_without hd)
  | removeById id =>
    rw [ConnectionManager.apply] at hd
    obtain ⟨c, -, -, heq⟩ | ⟨-, heq⟩ := removeConnectionById_cases h id
    · exact .inl (stores_without (heq ▸ hd))
    · exact .inl (heq ▸ hd)

/-- Nothing is left of a removed connection. -/
theorem Tidy.not_stores_apply (h : m.Tidy U) (hop : op.Removes c) : ¬(m.apply op).Stores c := by
  intro hc
  rcases hop with rfl | rfl
  · exact h.not_stores_without hc
  · rw [ConnectionManager.apply] at hc
    obtain ⟨d, hd, hid, heq⟩ | ⟨hnone, heq⟩ := removeConnectionById_cases h c.self.id
    · rw [heq] at hc
      have hbefore := h.registered c (stores_without hc)
      rw [← hid, h.registered d hd] at hbefore
      obtain rfl := Option.some.inj hbefore
      exact h.not_stores_without hc
    · rw [heq] at hc
      rw [h.registered c hc] at hnone
      cases hnone

/-! ### Runs -/

/-- A sequence of operations. -/
def run (m : ConnectionManager) (ops : List Op) : ConnectionManager := ops.foldl apply m

/-- The connections have distinct ids, and so have the leaves under them. -/
def Distinct (ops : List Op) : Prop :=
  ∀ o₁ ∈ ops, ∀ c ∈ o₁.connections, ∀ o₂ ∈ ops, ∀ d ∈ o₂.connections,
    ¬c.ids.Disjoint d.ids → c = d

theorem Tidy.run {ops : List Op} (h : m.Tidy U) (hops : ∀ op ∈ ops, ∀ c ∈ op.connections, c ∈ U)
    (hU : ∀ c ∈ U, ∀ d ∈ U, c.self.id = d.self.id → c = d) : (m.run ops).Tidy U := by
  induction ops generalizing m with
  | nil => exact h
  | cons op ops ih =>
    exact ih (h.apply (hops op List.mem_cons_self) hU) fun o ho => hops o (List.mem_cons_of_mem _ ho)

/-- What is not stored and not added is not stored later. -/
theorem Tidy.not_stores_run {ops : List Op} (h : m.Tidy U)
    (hops : ∀ op ∈ ops, ∀ c ∈ op.connections, c ∈ U)
    (hU : ∀ c ∈ U, ∀ d ∈ U, c.self.id = d.self.id → c = d) (hc : ¬m.Stores c)
    (hadd : .add c ∉ ops) : ¬(m.run ops).Stores c := by
  induction ops generalizing m with
  | nil => exact hc
  | cons op ops ih =>
    refine ih (h.apply (hops op List.mem_cons_self) hU)
      (fun o ho => hops o (List.mem_cons_of_mem _ ho)) ?_ fun hmem => hadd (List.mem_cons_of_mem _ hmem)
    intro hstores
    rcases h.stores_apply hstores with hstores | rfl
    · exact hc hstores
    · exact hadd List.mem_cons_self

theorem tidy_new {stackRouting : Option StackRoutingConfig}
    {routingManager : Option RoutingConnectionManager}
    (hrouting : stackRouting.mapM RoutingConnectionManager.new = some routingManager) :
    (new routingManager).Tidy U := by
  have hnew : ∀ r, routingManager = some r →
      ∃ config, RoutingConnectionManager.new config = some r := by
    rintro r rfl
    cases stackRouting with
    | none => simp at hrouting
    | some config =>
      obtain ⟨r', hr', hsome⟩ := Option.map_eq_some_iff.mp hrouting
      obtain rfl := Option.some.inj hsome
      exact ⟨config, hr'⟩
  have hempty : ∀ c, ¬(new routingManager).Stores c := by
    intro c hc
    rcases hc with ⟨id, hid⟩ | ⟨key, group, hgroup, -⟩ | ⟨r, hr, hc⟩
    · cases hid
    · cases hgroup
    · obtain ⟨config, hconfig⟩ := hnew r hr
      exact RoutingConnectionManager.not_stores_new hconfig hc
  exact
    { subset := fun c hc => absurd hc (hempty c)
      registered := fun c hc => absurd hc (hempty c)
      keyed := fun _ _ h => nomatch h
      grouped := fun _ _ h => nomatch h
      peers := fun _ _ h => nomatch h
      placed := by
        intro r hr
        obtain ⟨config, hconfig⟩ := hnew r hr
        exact RoutingConnectionManager.placed_new hconfig }

/-- An added connection is handed out. -/
theorem handedOut_addConnection (m : ConnectionManager) (c : Connection) :
    (m.addConnection c).HandedOut c := by
  refine .byId c.self.id c ?_ (.inl rfl)
  rw [getConnectionById, lookup_addConnection, if_pos rfl]

/-- **A removed connection is gone.** On connections with distinct ids, each added once, one
that was added and then removed is not handed out any more. -/
theorem not_handedOut_run {stackRouting : Option StackRoutingConfig}
    {routingManager : Option RoutingConnectionManager}
    (hrouting : stackRouting.mapM RoutingConnectionManager.new = some routingManager)
    {done rest : List Op} {removal : Op} {c : Connection}
    (hdistinct : Distinct (done ++ removal :: rest))
    (honce : ((done ++ removal :: rest).filterMap Op.added).Nodup) (hadded : .add c ∈ done)
    (hremoval : removal.Removes c) :
    ¬((new routingManager).run (done ++ removal :: rest)).HandedOut c := by
  let U : Set Connection := {d | ∃ op ∈ done ++ removal :: rest, d ∈ op.connections}
  have hmem : ∀ op ∈ done ++ removal :: rest, ∀ d ∈ op.connections, d ∈ U :=
    fun op hop d hd => ⟨op, hop, hd⟩
  have hshared : ∀ c ∈ U, ∀ d ∈ U, ¬c.ids.Disjoint d.ids → c = d := by
    rintro c ⟨o₁, ho₁, hc⟩ d ⟨o₂, ho₂, hd⟩ hids
    exact hdistinct o₁ ho₁ c hc o₂ ho₂ d hd hids
  have hU : ∀ c ∈ U, ∀ d ∈ U, c.self.id = d.self.id → c = d := by
    intro c hc d hd hid
    refine hshared c hc d hd fun hdisjoint => hdisjoint (List.mem_cons_self) ?_
    rw [hid]
    exact List.mem_cons_self
  have hdone : ((new routingManager).run done).Tidy U :=
    (tidy_new hrouting).run (fun op hop => hmem op (List.mem_append_left _ hop)) hU
  have hremoved : (((new routingManager).run done).apply removal).Tidy U :=
    hdone.apply (hmem removal (by simp)) hU
  -- added once, and that was before
  have hrest : .add c ∉ rest := by
    intro hagain
    rw [List.filterMap_append, List.nodup_append] at honce
    exact honce.2.2 c (List.mem_filterMap.mpr ⟨_, hadded, rfl⟩) c
      (List.mem_filterMap.mpr ⟨_, List.mem_cons_of_mem _ hagain, rfl⟩) rfl
  have hops : ∀ op ∈ rest, ∀ d ∈ op.connections, d ∈ U := fun op hop =>
    hmem op (by simp [hop])
  have hlast : ((((new routingManager).run done).apply removal).run rest).Tidy U :=
    hremoved.run hops hU
  have hgone := hremoved.not_stores_run hops hU (hdone.not_stores_apply hremoval) hrest
  have hrun : (new routingManager).run (done ++ removal :: rest) =
      (((new routingManager).run done).apply removal).run rest := by
    rw [run, List.foldl_append]
    rfl
  rw [hrun]
  intro hhanded
  obtain ⟨d, hd, rfl | hmeets⟩ := exists_stores_of_handedOut hlast.grouped hhanded
  · exact hgone hd
  · have hc : c ∈ U := hmem (.add c) (List.mem_append_left _ hadded) c (List.mem_singleton_self c)
    obtain rfl := hshared c hc d (hlast.subset d hd) hmeets.not_disjoint_ids
    exact hgone hd

/-- The gateway is added to the route for its realm, lost, and another connection of it comes. -/
theorem not_handedOut_run_gateway :
    ∃ r, RoutingConnectionManager.new (RoutingConnectionManager.gatewayRouting "gw@dest.com") = some r ∧
      ¬((new (some r)).run ([.add (leaf ⟨7, "gw:3868", "gw", "dest.com"⟩)] ++
        .removeById "gw:3868" :: [.add (leaf ⟨8, "gw:3869", "gw", "dest.com"⟩)])).HandedOut
          (leaf ⟨7, "gw:3868", "gw", "dest.com"⟩) := by
  have hparse := (RoutingConnectionManager.leafNames_of_single "gw@dest.com" "gw@dest.com".toList
    (by decide)).1
  obtain ⟨r, hr, -⟩ := RoutingConnectionManager.exists_new_gatewayRouting hparse
  have hrouting : (some (RoutingConnectionManager.gatewayRouting "gw@dest.com")).mapM
      RoutingConnectionManager.new = some (some r) := by
    rw [Option.mapM_some, hr]
    rfl
  refine ⟨r, hr, not_handedOut_run hrouting ?_ ?_ (List.mem_singleton_self _) (.inr rfl)⟩
  · intro o₁ h₁ c hc o₂ h₂ d hd hids
    simp only [List.cons_append, List.nil_append, List.mem_cons, List.not_mem_nil, or_false] at h₁ h₂
    rcases h₁ with rfl | rfl | rfl <;> rcases h₂ with rfl | rfl | rfl <;>
      simp_all [Op.connections, Connection.ids, Connection.self, leaves]
  · simp [List.filterMap, Op.added]

end ConnectionManager

end RestDiameterBridge
