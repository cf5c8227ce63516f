import Mathlib.Data.List.Lex
import RestDiameterBridge.Lib.Latest
import RestDiameterBridge.Stack.PeerIdentity
import RestDiameterBridge.Transport.Send

/-!
# RestDiameterBridge.Stack.PeerAnswers

Which client connections an answer goes back to (`send_response` in
`src/transport/connection_manager.rs`).

A client connection passes its own id, but the manager knows the ids of the registered
connections only: for a client connection inside a container it finds nothing. So an
answer goes back over the client connection a request came from exactly if this was
registered itself, as the last one of its id (`answersLeaf_iff`).
-/

namespace RestDiameterBridge

open Connection Latest

namespace ConnectionManager

/-- `send_response`: to the connection of the id, else to the group of the peer. -/
def sendResponse (m : ConnectionManager) (outcome : Handle → Except String Unit) (s : Balancers)
    (connectionId host realm : String) : SendOutcome Handle :=
  match (m.getConnectionById connectionId).or (m.getConnectionByHostRealm host realm) with
  | some conn => conn.send outcome s
  | none => { result := .error "No available connection found", attempts := [], state := s }

/-- The connection registered last under an id. -/
theorem lookup_addConnections (m : ConnectionManager) (cs : List Connection) (id : String) :
    (cs.foldl addConnection m).connections.lookup id =
      (latest (fun c => c.self.id) id cs).or (m.connections.lookup id) :=
  lookup_foldl (fun m id => m.connections.lookup id) (fun _ _ => lookup_addConnection) cs m id

/-- Some peer has no group. -/
theorem exists_no_group (m : ConnectionManager) :
    ∃ host realm, m.getConnectionByHostRealm host realm = none := by
  -- one whose `host@realm` is longer than all keys together
  let n := (m.hostRealmConnections.keys.map String.length).sum
  refine ⟨String.ofList (List.replicate n 'x'), "", ?_⟩
  rw [getConnectionByHostRealm, AList.lookup_eq_none]
  intro hmem
  have hle : (hostRealm (String.ofList (List.replicate n 'x')) "").length ≤ n :=
    List.le_sum_of_mem (List.mem_map_of_mem (AList.mem_keys.mp hmem))
  simp [hostRealm] at hle

end ConnectionManager

/-- The ids of client connections: some addresses. -/
def AddressId (id : String) : Prop := id = "" ∨ ':' ∈ id.toList

theorem colon_mem_hostPort (addr : ListenAddress) (host : List Char) :
    ':' ∈ (addr.hostPort host).toList := by
  show ':' ∈ (String.ofList host ++ ":" ++ addr.port.repr).toList
  simp

theorem addressId_intercalate (addr : ListenAddress) (hosts : List (List Char)) :
    AddressId (",".intercalate (hosts.map addr.hostPort)) := by
  cases hosts with
  | nil => exact .inl String.intercalate_nil
  | cons host hosts =>
    refine .inr ?_
    have hcolon := colon_mem_hostPort addr host
    cases hosts with
    | nil => simpa using hcolon
    | cons host' hosts => simp [String.intercalate_cons_cons, hcolon]

namespace PeerConnection

theorem addressId_of_ofAddress {addr : ListenAddress}
    {peerHost peerRealm keyFile certFile caCertFile : String} {conn : ClientConnection}
    (h : ofAddress addr peerHost peerRealm keyFile certFile caCertFile = some conn) :
    AddressId conn.getId := by
  rw [ofAddress] at h
  split at h
  · cases h
    exact addressId_intercalate addr [addr.hosts.headD []]
  · split at h
    · cases h
      exact addressId_intercalate addr addr.hosts
    · cases h

theorem not_addressId_newHandle (kind : ContainerKind) (peerHost peerRealm : String)
    (addr : Nat) : ¬AddressId (newHandle kind peerHost peerRealm addr).id := by
  -- digits behind a text without a colon
  have htext : ∀ text : String, text ≠ "" → ':' ∉ text.toList → ¬AddressId (text ++ addr.repr) := by
    intro text hne hcolon h
    rcases h with h | h
    · exact hne (String.append_eq_empty_iff.mp h).1
    · rw [String.toList_append, List.mem_append] at h
      rcases h with h | h
      · exact hcolon h
      · rw [Nat.toList_repr] at h
        exact absurd (Nat.isDigit_of_mem_toDigits (by decide) (by decide) h) (by decide)
  cases kind with
  | roundRobin => exact htext "round_robin-" (by decide) (by decide)
  | failOver => exact htext "failover-" (by decide) (by decide)
  | random => exact htext "random-" (by decide) (by decide)

end PeerConnection

/-- The connection has the ids of addresses at its leaves, and is no container with such
an id. -/
structure Named (c : Connection) : Prop where
  leaf : ∀ l ∈ c.handles, AddressId l.id
  container : c.isContainer = true → ¬AddressId c.self.id

theorem hereditary_named (peerHost peerRealm : String) :
    PeerExpr.Hereditary peerHost peerRealm fun c => Named c.toConnection where
  client url keyFile certFile caCertFile nextAddr c hc := by
    rw [PeerConnection.create] at hc
    split at hc
    · rename_i conn hconn
      obtain rfl := List.mem_singleton.mp hc
      obtain ⟨addr, -, haddr⟩ := Option.bind_eq_some_iff.mp hconn
      refine ⟨fun l hl => ?_, fun h => by cases h⟩
      obtain rfl := List.mem_singleton.mp hl
      exact PeerConnection.addressId_of_ofAddress haddr
    · cases hc
  container kind addr connections h := by
    refine ⟨fun l hl => ?_,
      fun _ => PeerConnection.not_addressId_newHandle kind peerHost peerRealm addr⟩
    rw [PeerConnection.toConnection, PeerConnection.toConnections_eq_map, handles_container,
      List.mem_flatMap] at hl
    obtain ⟨d, hd, hl⟩ := hl
    obtain ⟨c, hc, rfl⟩ := List.mem_map.mp hd
    exact (h c hc).leaf l hl

/-! ### The registered connections -/

/-- The connections registered for the peers, in turn. -/
def registered (created : List (PeerConfig × List PeerConnection)) : List Connection :=
  created.flatMap fun p => p.2.map PeerConnection.toConnection

theorem registered_cons (p : PeerConfig × List PeerConnection)
    (created : List (PeerConfig × List PeerConnection)) :
    registered (p :: created) = p.2.map PeerConnection.toConnection ++ registered created :=
  List.flatMap_cons

section
variable {m m' : ConnectionManager} {peers : List PeerConfig}
  {created : List (PeerConfig × List PeerConnection)}

theorem named_of_mem_registered (h : connectToPeers m peers = some (m', created)) :
    ∀ c ∈ registered created, Named c := by
  have hcreated := forall₂_of_connectToPeers h
  clear h
  induction hcreated with
  | nil => simp [registered]
  | cons hpeer _ ih =>
    obtain ⟨-, m₁, m₂, hconnect⟩ := hpeer
    obtain ⟨e, -, hconns, -⟩ := connectToPeer_eq_some hconnect
    rw [registered_cons, List.forall_mem_append]
    refine ⟨?_, ih⟩
    rw [List.forall_mem_map, hconns]
    exact PeerExpr.forall_build (hereditary_named _ _) e _ _ _ _

/-- Of the connections with an id the one registered last is found. -/
theorem lookup_connectToPeers (h : connectToPeers m peers = some (m', created)) (id : String) :
    m'.connections.lookup id =
      (latest (fun c => c.self.id) id (registered created)).or (m.connections.lookup id) := by
  induction peers generalizing m created with
  | nil =>
    cases h
    rfl
  | cons peer peers ih =>
    obtain ⟨m₁, conns, rest, hpeer, hrest, rfl⟩ := connectToPeers_cons_eq_some h
    obtain ⟨e, -, -, hm⟩ := connectToPeer_eq_some hpeer
    rw [ih hrest, hm, ConnectionManager.lookup_addConnections, registered_cons, latest_append,
      Option.or_assoc]

end

/-- **Which answers go back.** After all peers were connected to, an answer sent to the id
of one of the leaves created goes to that leaf, whatever host and realm come with it,
exactly if the leaf was registered itself and nothing after it under its id. -/
theorem answersLeaf_iff {routingManager : Option RoutingConnectionManager} {m : ConnectionManager}
    {peers : List PeerConfig} {created : List (PeerConfig × List PeerConnection)}
    (h : connectToPeers (.new routingManager) peers = some (m, created)) {l : Handle}
    (hl : l ∈ (registered created).flatMap handles) :
    (∀ outcome host realm s, (m.sendResponse outcome s l.id host realm).attempts = [l]) ↔
      ∃ before after, registered created = before ++ leaf l :: after ∧
        ∀ c ∈ after, c.self.id ≠ l.id := by
  have hnamed := named_of_mem_registered h
  have hlookup : m.getConnectionById l.id =
      latest (fun c => c.self.id) l.id (registered created) :=
    (lookup_connectToPeers h l.id).trans Option.or_none
  constructor
  · intro hsends
    obtain ⟨host, realm, hgroup⟩ := m.exists_no_group
    have hattempts := hsends (fun _ => .ok ()) host realm ⟨fun _ => 0, fun _ => 0⟩
    rw [ConnectionManager.sendResponse, hlookup, hgroup, Option.or_none] at hattempts
    cases hlatest : latest (fun c => c.self.id) l.id (registered created) with
    | none =>
      rw [hlatest] at hattempts
      cases hattempts
    | some c =>
      rw [hlatest] at hattempts
      obtain ⟨before, after, heq, hid, hafter⟩ := latest_eq_some_iff.mp hlatest
      cases c with
      | leaf self =>
        obtain rfl : self = l := List.singleton_inj.mp hattempts
        exact ⟨before, after, heq, hafter⟩
      -- the id of a container is that of no leaf
      | container kind self connections =>
        obtain ⟨d, hd, hld⟩ := List.mem_flatMap.mp hl
        have hmem : container kind self connections ∈ registered created := by
          rw [heq]
          exact List.mem_append_right _ List.mem_cons_self
        exact absurd (hid ▸ (hnamed d hd).leaf l hld) ((hnamed _ hmem).container rfl)
  · intro hlast outcome host realm s
    obtain ⟨before, after, heq, hafter⟩ := hlast
    have hlatest : latest (fun c => c.self.id) l.id (registered created) = some (leaf l) :=
      latest_eq_some_iff.mpr ⟨before, after, heq, rfl, hafter⟩
    rw [ConnectionManager.sendResponse, hlookup, hlatest]
    rfl

/-- A peer with one address. -/
def plainPeer : PeerConfig :=
  { host := "node1.test.com@test.com", connectionUrl := "tcp://10.0.0.1:3868"
    certFile := none, keyFile := none, caCertFile := none }

/-- An answer to a request from its client connection goes back there. -/
theorem answersLeaf_iff_plainPeer :
    ∃ m conn, connectToPeers (.new none) [plainPeer] =
        some (m, [(plainPeer, [.client 0 conn])]) ∧
      ∀ outcome host realm s, (m.sendResponse outcome s conn.getId host realm).attempts =
        [⟨0, conn.getId, conn.peerHost, conn.peerRealm⟩] := by
  have hparse : PeerExpr.parse plainPeer.connectionUrl.toList =
      some (.address plainPeer.connectionUrl.toList) := PeerExpr.parse_of_address (by decide)
  obtain ⟨m, conns, hpeer, hpeers⟩ := exists_connectToPeers_single (.new none) plainPeer hparse
  obtain ⟨e, he, hconns, -⟩ := connectToPeer_eq_some hpeer
  obtain rfl := Option.some.inj (hparse.symm.trans he)
  rcases PeerConnection.create_cases plainPeer.connectionUrl.toList plainPeer.peerHost
    plainPeer.peerRealm (plainPeer.certFile.getD "") (plainPeer.keyFile.getD "")
    (plainPeer.caCertFile.getD "") 0 with ⟨-, conn, hcreate, -⟩ | ⟨hnot, -⟩
  · obtain rfl : conns = [.client 0 conn] := hconns.trans (congrArg Prod.fst hcreate)
    refine ⟨m, conn, hpeers, ?_⟩
    exact (answersLeaf_iff hpeers (List.mem_singleton_self _)).mpr ⟨[], [], rfl, by simp⟩
  · exact absurd hnot (by decide)

/-- An answer to a request from a client connection inside a container is not sent, not
even with the host and the realm of the peer. -/
theorem no_answer_randomPeer :
    ∃ m c, connectToPeers (.new none) [randomPeer] = some (m, [(randomPeer, [c])]) ∧
      ∃ l ∈ c.toConnection.handles, ∀ outcome s,
        m.sendResponse outcome s l.id randomPeer.peerHost randomPeer.peerRealm =
          { result := .error "No available connection found", attempts := [], state := s } := by
  obtain ⟨m, c, conn₁, conn₂, -, hpeers, hc, hgroup⟩ := connect_randomPeer
  have hnamed := named_of_mem_registered hpeers c.toConnection (List.mem_singleton_self _)
  have hleaf : ⟨0, conn₁.getId, conn₁.peerHost, conn₁.peerRealm⟩ ∈ c.toConnection.handles := by
    rw [hc]
    exact List.mem_cons_self
  have hcontainer : c.toConnection.isContainer = true := by
    rw [hc]
    rfl
  refine ⟨m, c, hpeers, _, hleaf, fun outcome s => ?_⟩
  have hlatest : latest (fun c => c.self.id) conn₁.getId [c.toConnection] = none := by
    refine latest_eq_none_iff.mpr fun d hd hid => ?_
    obtain rfl := List.mem_singleton.mp hd
    exact hnamed.container hcontainer (hid ▸ hnamed.leaf _ hleaf)
  have hlookup : m.getConnectionById conn₁.getId = none := by
    rw [ConnectionManager.getConnectionById, lookup_connectToPeers hpeers]
    exact (congrArg (Option.or · _) hlatest).trans rfl
  rw [ConnectionManager.sendResponse, hlookup, hgroup]
  rfl

end RestDiameterBridge
