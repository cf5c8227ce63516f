import RestDiameterBridge.Stack.PeerConnections
import RestDiameterBridge.Transport.RequestConnections

/-!
# RestDiameterBridge.Stack.PeerIdentity

Which created connections report their peer.

A client connection and the round-robin and failover containers carry the identity of the
peer they were created for; a random container makes one up. So the connections
registered for a peer report it exactly if none of them is a random container
(`reports_iff`), and only what reports its peer is found by a request for it.
-/

namespace RestDiameterBridge

open ConnectionManager

/-- The made-up hosts of two random containers differ. -/
theorem randomHost_injective {a b : Nat} (h : s!"random-host{a}" = s!"random-host{b}") :
    a = b := by
  have hrepr : a.repr = b.repr := (String.append_right_inj "random-host").mp h
  rw [← Nat.ofDigitChars_ten_toDigits (n := a), ← Nat.toList_repr, hrepr, Nat.toList_repr,
    Nat.ofDigitChars_ten_toDigits]

namespace PeerExpr

open PeerConnection

mutual
/-- The number of connections an expression stands for: a strategy puts more than one into
one container. -/
def count : PeerExpr → Nat
  | .invalid => 0
  | .address url => if isPeerAddress url then 1 else 0
  | .group _ argument => min 1 argument.count
  | .list parts => countEach parts
/-- The number of connections the parts of a list stand for. -/
def countEach : List PeerExpr → Nat
  | [] => 0
  | e :: es => e.count + countEach es
end

mutual
/-- Is one of the connections an expression stands for a random container? -/
def randomRoot : PeerExpr → Bool
  | .invalid | .address _ => false
  | .group kind argument => if 1 < argument.count then kind = .random else argument.randomRoot
  | .list parts => randomRootEach parts
/-- Is one of the connections that the parts of a list stand for a random container? -/
def randomRootEach : List PeerExpr → Bool
  | [] => false
  | e :: es => e.randomRoot || randomRootEach es
end

variable (peerHost peerRealm caCertFile : String)

theorem length_wrap (kind : ContainerKind) (created : List PeerConnection × Nat) :
    (wrap kind peerHost peerRealm created).1.length = min 1 created.1.length := by
  rw [wrap]
  split
  · rw [List.length_singleton]
    omega
  · omega

mutual
theorem length_build (e : PeerExpr) (keyFile certFile : String) (nextAddr : Nat) :
    (e.build peerHost peerRealm keyFile certFile caCertFile nextAddr).1.length = e.count := by
  match e with
  | .invalid => rfl
  | .address url =>
    rw [build, count]
    rcases create_cases url peerHost peerRealm keyFile certFile caCertFile nextAddr with
      ⟨haddr, conn, hcreate, -⟩ | ⟨haddr, hcreate⟩
    · rw [hcreate, haddr]
      rfl
    · rw [hcreate, haddr]
      rfl
  | .group kind argument =>
    rw [build, count, length_wrap, length_build argument keyFile certFile nextAddr]
  | .list parts => rw [build, count, length_buildEach parts certFile keyFile nextAddr]
theorem length_buildEach (es : List PeerExpr) (keyFile certFile : String) (nextAddr : Nat) :
    (buildEach peerHost peerRealm keyFile certFile caCertFile es nextAddr).1.length =
      countEach es := by
  match es with
  | [] => rfl
  | e :: es =>
    rw [buildEach, countEach, List.length_append, length_build e keyFile certFile nextAddr,
      length_buildEach es keyFile certFile _]
end

/-- What a root reports: the peer, or what a random container makes up. -/
def ReportsPeer (c : PeerConnection) : Prop :=
  Reports peerHost peerRealm c.toConnection

/-- The connection is a random container, allocated not before `nextAddr`. -/
def IsRandom (nextAddr : Nat) (c : PeerConnection) : Prop :=
  ∃ addr connections, nextAddr ≤ addr ∧
    c = .container .random (newHandle .random peerHost peerRealm addr) connections

theorem le_wrap (kind : ContainerKind) (created : List PeerConnection × Nat) :
    created.2 ≤ (wrap kind peerHost peerRealm created).2 := by
  rw [wrap]
  split
  · exact Nat.le_succ _
  · exact Nat.le_refl _

mutual
theorem le_build (e : PeerExpr) (keyFile certFile : String) (nextAddr : Nat) :
    nextAddr ≤ (e.build peerHost peerRealm keyFile certFile caCertFile nextAddr).2 := by
  match e with
  | .invalid => exact Nat.le_refl _
  | .address url =>
    rw [build]
    rcases create_cases url peerHost peerRealm keyFile certFile caCertFile nextAddr with
      ⟨-, conn, hcreate, -⟩ | ⟨-, hcreate⟩
    · rw [hcreate]
      exact Nat.le_succ _
    · rw [hcreate]
  | .group kind argument =>
    rw [build]
    exact (le_build argument keyFile certFile nextAddr).trans (le_wrap peerHost peerRealm _ _)
  | .list parts =>
    rw [build]
    exact le_buildEach parts certFile keyFile nextAddr
theorem le_buildEach (es : List PeerExpr) (keyFile certFile : String) (nextAddr : Nat) :
    nextAddr ≤ (buildEach peerHost peerRealm keyFile certFile caCertFile es nextAddr).2 := by
  match es with
  | [] => exact Nat.le_refl _
  | e :: es =>
    rw [buildEach]
    exact (le_build e keyFile certFile nextAddr).trans (le_buildEach es keyFile certFile _)
end

mutual
/-- Without a random container among them, all connections built report the peer. -/
theorem reports_build (e : PeerExpr) (h : e.randomRoot = false) (keyFile certFile : String)
    (nextAddr : Nat) :
    ∀ c ∈ (e.build peerHost peerRealm keyFile certFile caCertFile nextAddr).1,
      ReportsPeer peerHost peerRealm c := by
  match e with
  | .invalid => simp [build]
  | .address url =>
    rw [build]
    rcases create_cases url peerHost peerRealm keyFile certFile caCertFile nextAddr with
      ⟨-, conn, hcreate, hpeer, -⟩ | ⟨-, hcreate⟩
    · rw [hcreate, List.forall_mem_singleton]
      exact Prod.mk.inj hpeer
    · rw [hcreate]
      simp
  | .group kind argument =>
    rw [build, wrap, length_build]
    rw [randomRoot] at h
    split
    · rename_i hlt
      rw [if_pos hlt] at h
      rw [List.forall_mem_singleton]
      cases kind with
      | random => simp at h
      | roundRobin => exact ⟨rfl, rfl⟩
      | failOver => exact ⟨rfl, rfl⟩
    · rename_i hle
      rw [if_neg hle] at h
      exact reports_build argument h keyFile certFile nextAddr
  | .list parts =>
    rw [build]
    rw [randomRoot] at h
    exact reports_buildEach parts h certFile keyFile nextAddr
theorem reports_buildEach (es : List PeerExpr) (h : randomRootEach es = false)
    (keyFile certFile : String) (nextAddr : Nat) :
    ∀ c ∈ (buildEach peerHost peerRealm keyFile certFile caCertFile es nextAddr).1,
      ReportsPeer peerHost peerRealm c := by
  match es with
  | [] => simp [buildEach]
  | e :: es =>
    rw [randomRootEach, Bool.or_eq_false_iff] at h
    rw [buildEach, List.forall_mem_append]
    exact ⟨reports_build e h.1 keyFile certFile nextAddr,
      reports_buildEach es h.2 keyFile certFile _⟩
end

mutual
/-- Otherwise one of them is a random container. -/
theorem exists_random_build (e : PeerExpr) (h : e.randomRoot = true)
    (keyFile certFile : String) (nextAddr : Nat) :
    ∃ c ∈ (e.build peerHost peerRealm keyFile certFile caCertFile nextAddr).1,
      IsRandom peerHost peerRealm nextAddr c := by
  match e with
  | .invalid => simp [randomRoot] at h
  | .address url => simp [randomRoot] at h
  | .group kind argument =>
    rw [build, wrap, length_build]
    rw [randomRoot] at h
    split
    · rename_i hlt
      rw [if_pos hlt] at h
      obtain rfl := of_decide_eq_true h
      exact ⟨_, .head _, _, _, le_build _ _ _ argument _ _ _, rfl⟩
    · rename_i hle
      rw [if_neg hle] at h
      exact exists_random_build argument h keyFile certFile nextAddr
  | .list parts =>
    rw [build]
    rw [randomRoot] at h
    exact exists_random_buildEach parts h certFile keyFile nextAddr
theorem exists_random_buildEach (es : List PeerExpr) (h : randomRootEach es = true)
    (keyFile certFile : String) (nextAddr : Nat) :
    ∃ c ∈ (buildEach peerHost peerRealm keyFile certFile caCertFile es nextAddr).1,
      IsRandom peerHost peerRealm nextAddr c := by
  match es with
  | [] => simp [randomRootEach] at h
  | e :: es =>
    rw [randomRootEach, Bool.or_eq_true] at h
    rw [buildEach]
    rcases h with h | h
    · obtain ⟨c, hc, hrandom⟩ := exists_random_build e h keyFile certFile nextAddr
      exact ⟨c, List.mem_append_left _ hc, hrandom⟩
    · obtain ⟨c, hc, addr, connections, hle, rfl⟩ :=
        exists_random_buildEach es h keyFile certFile
          (e.build peerHost peerRealm keyFile certFile caCertFile nextAddr).2
      exact ⟨_, List.mem_append_right _ hc, addr, connections,
        (le_build _ _ _ e keyFile certFile nextAddr).trans hle, rfl⟩
end

end PeerExpr

/-- Is one of the connections of the peer a random container? -/
def PeerConfig.randomRoot (peer : PeerConfig) : Bool :=
  ((PeerExpr.parse peer.connectionUrl.toList).map PeerExpr.randomRoot).getD false

/-- **Which peers are reported and found.** Whatever the state of the manager, all
connections created for a peer report it, and a request for the peer is handed their
leaves, exactly if none of them is a random container. -/
theorem reports_iff (peer : PeerConfig) :
    (∀ m m' conns, m.Grouped → connectToPeer m peer = some (m', conns) → ∀ c ∈ conns,
        Reports peer.peerHost peer.peerRealm c.toConnection ∧
        FoundBy peer.peerHost peer.peerRealm c.toConnection m') ↔
      peer.randomRoot = false := by
  constructor
  · intro h
    rw [← Bool.not_eq_true]
    intro hrandom
    rw [PeerConfig.randomRoot] at hrandom
    cases hparse : PeerExpr.parse peer.connectionUrl.toList with
    | none => simp [hparse] at hrandom
    | some e =>
      rw [hparse] at hrandom
      -- a peer named like one random container is not named like a later one
      have hname : ∀ nextAddr, ∃ addr : Nat, nextAddr ≤ addr ∧
          peer.peerHost = s!"random-host{addr}" := by
        intro nextAddr
        obtain ⟨c, hc, addr, connections, hle, rfl⟩ := PeerExpr.exists_random_build
          peer.peerHost peer.peerRealm (peer.caCertFile.getD "") e hrandom
          (peer.certFile.getD "") (peer.keyFile.getD "") nextAddr
        have hconnect := connectToPeer_eq { new none with nextAddr } peer
        rw [hparse] at hconnect
        have hreports := (h _ _ _ (grouped_new nextAddr) hconnect _ hc).1
        exact ⟨addr, hle, hreports.1.symm⟩
      obtain ⟨a, -, ha⟩ := hname 0
      obtain ⟨b, hb, hpeer⟩ := hname (a + 1)
      have heq : a = b := randomHost_injective (ha.symm.trans hpeer)
      omega
  · intro h m m' conns hm hconnect c hc
    obtain ⟨e, he, hconns, hm'⟩ := connectToPeer_eq_some hconnect
    have hreports : Reports peer.peerHost peer.peerRealm c.toConnection := by
      rw [PeerConfig.randomRoot, he] at h
      rw [hconns] at hc
      exact PeerExpr.reports_build _ _ _ e h _ _ _ c hc
    refine ⟨hreports, foundBy_of_finds hreports ?_⟩
    rw [hm']
    exact finds_addConnections hm (.inl (List.mem_map_of_mem hc))

/-- A peer with two addresses in a random container. -/
def randomPeer : PeerConfig :=
  { host := "node1.test.com@test.com"
    connectionUrl := "random(tcp://10.0.0.1:3868;tcp://10.0.0.2:3868)"
    certFile := none, keyFile := none, caCertFile := none }

theorem parse_randomPeer :
    PeerExpr.parse randomPeer.connectionUrl.toList =
      some (.group .random PeerExpr.twoAddresses) := by
  have hstrategy : LoadBalancerStrategy.fromStr randomPeer.connectionUrl.toList =
      some (some (.random "tcp://10.0.0.1:3868;tcp://10.0.0.2:3868".toList)) := by
    decide
  rw [PeerExpr.parse_of_random hstrategy, PeerExpr.parse_twoAddresses]
  rfl

/-- It gets one random container over two client connections, which no request for it
finds. -/
theorem connect_randomPeer :
    ∃ m c conn₁ conn₂, connectToPeer (.new none) randomPeer = some (m, [c]) ∧
      connectToPeers (.new none) [randomPeer] = some (m, [(randomPeer, [c])]) ∧
      c = .container .random
        (PeerConnection.newHandle .random randomPeer.peerHost randomPeer.peerRealm 2)
        [.client 0 conn₁, .client 1 conn₂] ∧
      m.getConnectionByHostRealm randomPeer.peerHost randomPeer.peerRealm = none := by
  obtain ⟨m, conns, hpeer, hpeers⟩ :=
    exists_connectToPeers_single (.new none) randomPeer parse_randomPeer
  obtain ⟨e, he, hconns, hm⟩ := connectToPeer_eq_some hpeer
  obtain rfl := Option.some.inj (parse_randomPeer.symm.trans he)
  obtain ⟨conn₁, conn₂, hbuild⟩ := PeerExpr.build_twoAddresses randomPeer.peerHost
    randomPeer.peerRealm (randomPeer.certFile.getD "") (randomPeer.keyFile.getD "")
    (randomPeer.caCertFile.getD "") (new none).nextAddr
  have hrandom : randomPeer.build (.group .random PeerExpr.twoAddresses) (new none).nextAddr =
      ([.container .random
        (PeerConnection.newHandle .random randomPeer.peerHost randomPeer.peerRealm 2)
        [.client 0 conn₁, .client 1 conn₂]], 3) := by
    rw [PeerConfig.build, PeerExpr.build, hbuild]
    rfl
  rw [hrandom] at hconns hm
  subst hconns hm
  refine ⟨_, _, conn₁, conn₂, hpeer, hpeers, rfl, ?_⟩
  rw [getConnectionByHostRealm, List.map_singleton, List.foldl_cons, List.foldl_nil,
    lookup_addConnection_of_ne]
  · rfl
  show hostRealm randomPeer.peerHost randomPeer.peerRealm ≠
    hostRealm "random-host2" "random-realm2"
  decide

/-- Its one connection is registered under a host and a realm that nobody asks for. -/
theorem not_reports_randomPeer :
    ∃ m c, connectToPeer (.new none) randomPeer = some (m, [c]) ∧
      ¬Reports randomPeer.peerHost randomPeer.peerRealm c.toConnection ∧
      m.getConnectionByHostRealm randomPeer.peerHost randomPeer.peerRealm = none := by
  obtain ⟨m, c, conn₁, conn₂, hpeer, -, rfl, hgroup⟩ := connect_randomPeer
  refine ⟨m, _, hpeer, ?_, hgroup⟩
  show ¬("random-host2" = randomPeer.peerHost ∧ "random-realm2" = randomPeer.peerRealm)
  decide

end RestDiameterBridge
