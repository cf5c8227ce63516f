import RestDiameterBridge.Transport.ConnectionManager

/-!
# RestDiameterBridge.Transport.RequestConnections

The candidates for a request (`get_connections_for_request` in
`src/transport/connection_manager.rs`): those of a redirect, else the leaves of the group
of its destination, else what the routes give.

The work stack of `get_underlying_connections` loses no leaf
(`getUnderlyingConnections_perm`), so a request for a peer is handed every leaf of a
connection that was added under the identity of the peer
(`mem_getConnectionsForRequest_of_reports`).
-/

namespace RestDiameterBridge

open Connection

/-- The stack holds the leaves not yet collected. -/
theorem checkConnections_perm (s : Balancers) (checking connections : List Connection) :
    (checkConnections s checking connections).1.Perm (connections ++ leavesList checking) := by
  induction hn : weightSum checking using Nat.strongRecOn
    generalizing s checking connections with
  | ind n ih =>
    subst hn
    rcases List.eq_nil_or_concat' checking with rfl | ⟨front, current, rfl⟩
    · rw [checkConnections_nil, leavesList, List.append_nil]
    · rw [leavesList_concat]
      cases current with
      | leaf self =>
        rw [checkConnections_leaf]
        have hlt : weightSum front < weightSum (front ++ [leaf self]) := by
          rw [weightSum_append, weightSum, weight]
          omega
        refine (ih _ hlt s front _ rfl).trans ?_
        rw [List.append_assoc]
        exact List.Perm.append_left connections List.perm_append_comm
      | container kind self children =>
        rw [checkConnections_container rfl]
        have hchildren := getConnections_perm s kind self children
        have hlt : weightSum (front ++ ((container kind self children).getConnections s).1) <
            weightSum (front ++ [container kind self children]) := by
          rw [weightSum_append, weightSum_append, weightSum, weightSum]
          have := weightSum_getConnections_lt (c := container kind self children) rfl s
          omega
        refine (ih _ hlt _ _ _ rfl).trans ?_
        rw [leavesList_eq_flatMap, List.flatMap_append, ← leavesList_eq_flatMap, leaves,
          leavesList_eq_flatMap children]
        exact ((hchildren.flatMap_right leaves).append_left _).append_left _

/-- A request is attempted on every leaf under a connection. -/
theorem getUnderlyingConnections_perm (s : Balancers) (c : Connection) :
    (getUnderlyingConnections s c).1.Perm c.leaves := by
  have := checkConnections_perm s [c] []
  rwa [List.nil_append, leavesList, leavesList, List.append_nil] at this

namespace ConnectionManager

/-- The candidates for a request, given those a redirect leads to. -/
def getConnectionsForRequest (m : ConnectionManager) (redirect : Option (List Connection))
    (s : Balancers) (request : Command) : Except String (List Connection) × Balancers :=
  match redirect with
  | some connections => (.ok connections, s)
  | none =>
      let host := request.getDestinationHost.getD ""
      let realm := request.getDestinationRealm.getD ""
      match m.getConnectionByHostRealm host realm with
      | some conn =>
          let connections := getUnderlyingConnections s conn
          (.ok connections.1, connections.2)
      | none =>
          match m.routingManager with
          | some routingManager =>
              let connections := routingManager.getConnectionsForCommand s request
              (.ok connections.1, connections.2)
          | none => (.error "No available connection found", s)

/-- The connection reports that peer. -/
def Reports (host realm : String) (c : Connection) : Prop :=
  c.self.peerHost = host ∧ c.self.peerRealm = realm

/-- A request for the peer that no redirect concerns is handed every leaf of the
connection. -/
def FoundBy (host realm : String) (c : Connection) (m : ConnectionManager) : Prop :=
  ∀ s request, request.getDestinationHost = some host → request.getDestinationRealm = some realm →
    ∃ found s', m.getConnectionsForRequest none s request = (.ok found, s') ∧ c.leaves ⊆ found

theorem foundBy_of_finds {m : ConnectionManager} {host realm : String} {c : Connection}
    (hreports : Reports host realm c) (hfinds : m.Finds c) : FoundBy host realm c m := by
  obtain ⟨rfl, rfl⟩ := hreports
  obtain ⟨group, hgroup, hmem⟩ := hfinds
  intro s request hhost hrealm
  refine ⟨(getUnderlyingConnections s group).1, (getUnderlyingConnections s group).2, ?_, ?_⟩
  · simp only [getConnectionsForRequest, hhost, hrealm, Option.getD_some, hgroup]
  · intro l hl
    refine (getUnderlyingConnections_perm s group).mem_iff.mpr ?_
    cases group with
    | leaf self => cases hmem
    | container kind self connections =>
      rw [leaves, leavesList_eq_flatMap]
      exact List.mem_flatMap.mpr ⟨c, hmem, hl⟩

/-- Once it is added, a request for the peer it reports is handed its leaves. -/
theorem foundBy_addConnection {m : ConnectionManager} (hm : m.Grouped) {host realm : String}
    {c : Connection} (hreports : Reports host realm c) :
    FoundBy host realm c (m.addConnection c) :=
  foundBy_of_finds hreports (finds_addConnection hm (.inl rfl))

end ConnectionManager

end RestDiameterBridge
