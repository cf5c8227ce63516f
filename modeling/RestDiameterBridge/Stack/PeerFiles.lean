import Mathlib.Algebra.Group.Nat.Even
import RestDiameterBridge.Stack.PeerConnections

/-!
# RestDiameterBridge.Stack.PeerFiles

Which client connection gets which file.

`connect_to_peers` passes the certificate where `create_connections` takes the key, and
every list of the expression exchanges the two again. So a client connection has the
right files exactly if it stands under an odd number of lists (`files_iff`).
-/

namespace RestDiameterBridge

namespace PeerExpr

mutual
/-- For each address of a client connection, the number of lists it stands under. -/
def levels : PeerExpr → List Nat
  | .invalid => []
  | .address url => if PeerConnection.isPeerAddress url then [0] else []
  | .group _ argument => argument.levels
  | .list parts => (levelsEach parts).map (· + 1)
/-- The same for the parts of a list. -/
def levelsEach : List PeerExpr → List Nat
  | [] => []
  | e :: es => e.levels ++ levelsEach es
end

end PeerExpr

namespace PeerConnection

variable {peerHost peerRealm keyFile certFile caCertFile : String} {nextAddr : Nat}

theorem files_create (url : List Char) :
    (clientsList (create url peerHost peerRealm keyFile certFile caCertFile nextAddr).1).map
        ClientConnection.files =
      if isPeerAddress url then [(keyFile, certFile, caCertFile)] else [] := by
  rcases create_cases url peerHost peerRealm keyFile certFile caCertFile nextAddr with
    ⟨haddr, conn, hcreate, -, hfiles⟩ | ⟨haddr, hcreate⟩
  · rw [hcreate, haddr, if_pos rfl, ← hfiles]
    rfl
  · rw [hcreate, haddr]
    rfl

theorem clientsList_wrap (kind : ContainerKind) (created : List PeerConnection × Nat) :
    clientsList (wrap kind peerHost peerRealm created).1 = clientsList created.1 := by
  rw [wrap]
  split
  · simp [clientsList, clients]
  · rfl

end PeerConnection

/-- The files under `n` lists: every list exchanges the first two. -/
def filesAt (keyFile certFile caCertFile : String) (n : Nat) : String × String × String :=
  if Even n then (keyFile, certFile, caCertFile) else (certFile, keyFile, caCertFile)

theorem filesAt_succ (keyFile certFile caCertFile : String) (n : Nat) :
    filesAt keyFile certFile caCertFile (n + 1) = filesAt certFile keyFile caCertFile n := by
  by_cases h : Even n
  · rw [filesAt, filesAt, if_pos h, if_neg (by simpa [Nat.even_add_one] using h)]
  · rw [filesAt, filesAt, if_neg h, if_pos (by simpa [Nat.even_add_one] using h)]

namespace PeerExpr

open PeerConnection

variable (peerHost peerRealm caCertFile : String)

mutual
/-- The files of the client connections built, by the levels of their addresses. -/
theorem files_build (e : PeerExpr) (keyFile certFile : String) (nextAddr : Nat) :
    (clientsList (e.build peerHost peerRealm keyFile certFile caCertFile nextAddr).1).map
        ClientConnection.files =
      e.levels.map (filesAt keyFile certFile caCertFile) := by
  match e with
  | .invalid => rfl
  | .address url =>
    rw [build, files_create, levels]
    split <;> rfl
  | .group kind argument =>
    rw [build, clientsList_wrap, levels]
    exact files_build argument keyFile certFile nextAddr
  | .list parts =>
    rw [build, levels, List.map_map]
    refine (files_buildEach parts certFile keyFile nextAddr).trans ?_
    exact List.map_congr_left fun n _ => (filesAt_succ keyFile certFile caCertFile n).symm
/-- The same for the parts of a list. -/
theorem files_buildEach (es : List PeerExpr) (keyFile certFile : String) (nextAddr : Nat) :
    (clientsList (buildEach peerHost peerRealm keyFile certFile caCertFile es nextAddr).1).map
        ClientConnection.files =
      (levelsEach es).map (filesAt keyFile certFile caCertFile) := by
  match es with
  | [] => rfl
  | e :: es =>
    rw [buildEach, levelsEach, clientsList_append, List.map_append, List.map_append,
      files_build e keyFile certFile nextAddr, files_buildEach es keyFile certFile _]
end

end PeerExpr

/-- The client connection has the files of the peer. -/
def PeerConfig.Files (peer : PeerConfig) (client : ClientConnection) : Prop :=
  client.keyFile = peer.keyFile.getD "" ∧ client.certFile = peer.certFile.getD "" ∧
    client.caCertFile = peer.caCertFile.getD ""

/-- The number of lists around each address of a client connection in the expression of
the peer. -/
def PeerConfig.levels (peer : PeerConfig) : List Nat :=
  ((PeerExpr.parse peer.connectionUrl.toList).map PeerExpr.levels).getD []

theorem files_filesAt_iff {keyFile certFile caCertFile : String} {n : Nat} :
    filesAt certFile keyFile caCertFile n = (keyFile, certFile, caCertFile) ↔
      keyFile = certFile ∨ Odd n := by
  rw [filesAt]
  by_cases h : Even n
  · rw [if_pos h]
    simp only [Prod.mk.injEq, and_true, Nat.not_odd_iff_even.mpr h, or_false]
    exact ⟨fun h => h.2, fun h => ⟨h.symm, h⟩⟩
  · rw [if_neg h]
    exact iff_of_true rfl (.inr (Nat.not_even_iff_odd.mp h))

/-- The files of the client connections created for a peer, by the levels of their
addresses. -/
theorem files_connectToPeer {m m' : ConnectionManager} {peer : PeerConfig}
    {conns : List PeerConnection} (h : connectToPeer m peer = some (m', conns)) :
    (PeerConnection.clientsList conns).map ClientConnection.files =
      peer.levels.map (filesAt (peer.certFile.getD "") (peer.keyFile.getD "")
        (peer.caCertFile.getD "")) := by
  obtain ⟨e, he, rfl, -⟩ := connectToPeer_eq_some h
  rw [PeerConfig.build, PeerExpr.files_build, PeerConfig.levels, he]
  rfl

/-- The client connections of one peer have its files exactly if its two files are the
same or each address stands under an odd number of lists. -/
theorem files_connectToPeer_iff {m m' : ConnectionManager} {peer : PeerConfig}
    {conns : List PeerConnection} (h : connectToPeer m peer = some (m', conns)) :
    (∀ client ∈ PeerConnection.clientsList conns, peer.Files client) ↔
      ∀ n ∈ peer.levels, peer.keyFile.getD "" = peer.certFile.getD "" ∨ Odd n := by
  have hall : (∀ client ∈ PeerConnection.clientsList conns, peer.Files client) ↔
      ∀ files ∈ (PeerConnection.clientsList conns).map ClientConnection.files,
        files = (peer.keyFile.getD "", peer.certFile.getD "", peer.caCertFile.getD "") := by
    rw [List.forall_mem_map]
    simp only [PeerConfig.Files, ClientConnection.files, Prod.mk.injEq]
  rw [hall, files_connectToPeer h, List.forall_mem_map]
  exact forall₂_congr fun n _ => files_filesAt_iff

/-- **Which peers get their files right.** All client connections `connect_to_peers`
creates have the files of their peer exactly if for every peer its key file is its
certificate file, or each address of its expression stands under an odd number of
lists. -/
theorem files_iff {m m' : ConnectionManager} {peers : List PeerConfig}
    {created : List (PeerConfig × List PeerConnection)}
    (h : connectToPeers m peers = some (m', created)) :
    (∀ p ∈ created, ∀ client ∈ PeerConnection.clientsList p.2, p.1.Files client) ↔
      ∀ peer ∈ peers, ∀ n ∈ peer.levels,
        peer.keyFile.getD "" = peer.certFile.getD "" ∨ Odd n := by
  have hcreated := forall₂_of_connectToPeers h
  clear h
  induction hcreated with
  | nil => simp
  | cons hpeer _ ih =>
    obtain ⟨rfl, m₁, m₂, hconns⟩ := hpeer
    rw [List.forall_mem_cons, List.forall_mem_cons]
    exact and_congr (files_connectToPeer_iff hconns) ih

/-- A peer with a key and a certificate. -/
def tlsPeer (connectionUrl : String) : PeerConfig :=
  { host := "node1.test.com@test.com", connectionUrl
    certFile := some "node1.crt", keyFile := some "node1.key", caCertFile := some "ca.crt" }

/-- Two addresses in a list get the files right. -/
theorem files_iff_sample :
    ∃ m' created,
      connectToPeers (.new none) [tlsPeer "tcp://10.0.0.1:3868;tcp://10.0.0.2:3868"] =
        some (m', created) ∧
      ∀ p ∈ created, ∀ client ∈ PeerConnection.clientsList p.2, p.1.Files client := by
  obtain ⟨m', conns, -, hconnect⟩ := exists_connectToPeers_single (.new none)
    (tlsPeer "tcp://10.0.0.1:3868;tcp://10.0.0.2:3868") PeerExpr.parse_twoAddresses
  refine ⟨m', _, hconnect, (files_iff hconnect).mpr fun peer hpeer => ?_⟩
  rw [List.mem_singleton.mp hpeer, PeerConfig.levels]
  show ∀ n ∈ ((PeerExpr.parse "tcp://10.0.0.1:3868;tcp://10.0.0.2:3868".toList).map
    PeerExpr.levels).getD [], _
  rw [PeerExpr.parse_twoAddresses]
  decide

/-- A single address gets the certificate as its key and the key as its certificate. -/
theorem files_of_single_address :
    ∃ m' conns,
      connectToPeers (.new none) [tlsPeer "tcp://10.0.0.1:3868"] =
        some (m', [(tlsPeer "tcp://10.0.0.1:3868", conns)]) ∧
      (PeerConnection.clientsList conns).map ClientConnection.files =
        [("node1.crt", "node1.key", "ca.crt")] ∧
      ∃ client ∈ PeerConnection.clientsList conns,
        ¬(tlsPeer "tcp://10.0.0.1:3868").Files client := by
  have hparse : PeerExpr.parse "tcp://10.0.0.1:3868".toList =
      some (.address "tcp://10.0.0.1:3868".toList) := PeerExpr.parse_of_address (by decide)
  obtain ⟨m', conns, hpeer, hconnect⟩ := exists_connectToPeers_single (.new none)
    (tlsPeer "tcp://10.0.0.1:3868") hparse
  have hlevels : (tlsPeer "tcp://10.0.0.1:3868").levels = [0] := by
    rw [PeerConfig.levels]
    show ((PeerExpr.parse "tcp://10.0.0.1:3868".toList).map PeerExpr.levels).getD [] = _
    rw [hparse]
    decide
  have hfiles := files_connectToPeer hpeer
  rw [hlevels] at hfiles
  refine ⟨m', conns, hconnect, hfiles, ?_⟩
  obtain ⟨client, hclient, hclientFiles⟩ :=
    List.mem_map.mp (hfiles ▸ List.mem_cons_self :
      (filesAt "node1.crt" "node1.key" "ca.crt" 0) ∈
        (PeerConnection.clientsList conns).map ClientConnection.files)
  refine ⟨client, hclient, fun h => ?_⟩
  have hkey : client.keyFile = "node1.crt" := congrArg (·.1) hclientFiles
  exact absurd (hkey.symm.trans h.1) (by decide)

end RestDiameterBridge
