import RestDiameterBridge.Stack.ListenAddress
import RestDiameterBridge.Transport.ConnectionManager

/-!
# RestDiameterBridge.Stack.PeerConnections

The connections to the configured peers (`connect_to_peers`, `create_connections` in
`src/stack.rs`).

The `connection-url` of a peer is a load-balancing expression over addresses.
`createConnections` parses it level by level and creates a client connection for each
address and a container for each strategy with more than one connection in it.

`PeerExpr.parse` reads the same expressions without creating anything, and
`createConnections_eq` says that creating is building what was parsed. What follows about
created connections is by recursion over `PeerExpr`.
-/

namespace RestDiameterBridge

/-- The transport of a client connection. -/
inductive ClientProtocol
  | tcp
  | sctp (streamId ppid : Nat)
  deriving Repr, DecidableEq

/-- What a client connection is created with. -/
structure ClientConnection where
  protocol : ClientProtocol
  addresses : List String
  peerHost : String
  peerRealm : String
  keyFile : String
  certFile : String
  caCertFile : String
  deriving Repr, DecidableEq

/-- The id of a client connection: its addresses. -/
def ClientConnection.getId (client : ClientConnection) : String :=
  ",".intercalate client.addresses

/-- The key file, the certificate file and the CA file of a client connection. -/
def ClientConnection.files (client : ClientConnection) : String × String × String :=
  (client.keyFile, client.certFile, client.caCertFile)

/-- The connections created for an expression. -/
inductive PeerConnection
  | client (addr : Nat) (conn : ClientConnection)
  | container (kind : ContainerKind) (self : Handle) (connections : List PeerConnection)
  deriving Repr

namespace PeerConnection

mutual
/-- The created connection as others see it. -/
def toConnection : PeerConnection → Connection
  | .client addr conn => .leaf ⟨addr, conn.getId, conn.peerHost, conn.peerRealm⟩
  | .container kind self connections => .container kind self (toConnections connections)
/-- The created connections as others see them. -/
def toConnections : List PeerConnection → List Connection
  | [] => []
  | c :: cs => c.toConnection :: toConnections cs
end

theorem toConnections_eq_map (cs : List PeerConnection) :
    toConnections cs = cs.map toConnection := by
  induction cs with
  | nil => rfl
  | cons c cs ih => rw [toConnections, ih, List.map_cons]

mutual
/-- The client connections in a created connection. -/
def clients : PeerConnection → List ClientConnection
  | .client _ conn => [conn]
  | .container _ _ connections => clientsList connections
/-- The client connections in a list of created connections. -/
def clientsList : List PeerConnection → List ClientConnection
  | [] => []
  | c :: cs => c.clients ++ clientsList cs
end

@[simp] theorem clientsList_append (cs ds : List PeerConnection) :
    clientsList (cs ++ ds) = clientsList cs ++ clientsList ds := by
  induction cs with
  | nil => rfl
  | cons c cs ih => rw [List.cons_append, clientsList, ih, clientsList, List.append_assoc]

/-- The handle of a new container. The random part of its texts is the allocation; a
random container knows nothing of its peer. -/
def newHandle (kind : ContainerKind) (peerHost peerRealm : String) (addr : Nat) : Handle :=
  match kind with
  | .roundRobin => ⟨addr, s!"round_robin-{addr}", peerHost, peerRealm⟩
  | .failOver => ⟨addr, s!"failover-{addr}", peerHost, peerRealm⟩
  | .random => ⟨addr, s!"random-{addr}", s!"random-host{addr}", s!"random-realm{addr}"⟩

/-- Put the connections for the argument of a strategy into its container, if there is
more than one. -/
def wrap (kind : ContainerKind) (peerHost peerRealm : String)
    (created : List PeerConnection × Nat) : List PeerConnection × Nat :=
  if 1 < created.1.length then
    ([.container kind (newHandle kind peerHost peerRealm created.2) created.1], created.2 + 1)
  else created

/-- The client connection for a single address. There is none for another protocol. -/
def ofAddress (addr : ListenAddress) (peerHost peerRealm keyFile certFile caCertFile : String) :
    Option ClientConnection :=
  if toLowercase addr.protocol = "tcp".toList then some
    { protocol := .tcp, addresses := [addr.hostPort (addr.hosts.headD [])]
      peerHost, peerRealm, keyFile, certFile, caCertFile }
  else if toLowercase addr.protocol = "sctp".toList then some
    { protocol := .sctp (addr.getParameter 16 "stream_id") (addr.getParameter 32 "ppid")
      addresses := addr.hosts.map addr.hostPort
      peerHost, peerRealm, keyFile, certFile, caCertFile }
  else none

/-- The connection for a single address, if it is one. -/
def create (url : List Char) (peerHost peerRealm keyFile certFile caCertFile : String)
    (nextAddr : Nat) : List PeerConnection × Nat :=
  match (ListenAddress.fromStr url).toOption.bind fun addr =>
      ofAddress addr peerHost peerRealm keyFile certFile caCertFile with
  | some conn => ([.client nextAddr conn], nextAddr + 1)
  | none => ([], nextAddr)

/-- Can a client connection be created for the address? -/
def isPeerAddress (url : List Char) : Bool :=
  match ListenAddress.fromStr url with
  | .ok addr =>
      toLowercase addr.protocol = "tcp".toList || toLowercase addr.protocol = "sctp".toList
  | .error _ => false

/-- A client connection with the given peer and files, or none where the address is not
one. -/
theorem create_cases (url : List Char) (peerHost peerRealm keyFile certFile caCertFile : String)
    (nextAddr : Nat) :
    (isPeerAddress url = true ∧ ∃ conn,
        create url peerHost peerRealm keyFile certFile caCertFile nextAddr =
          ([.client nextAddr conn], nextAddr + 1) ∧
        (conn.peerHost, conn.peerRealm) = (peerHost, peerRealm) ∧
        conn.files = (keyFile, certFile, caCertFile)) ∨
      (isPeerAddress url = false ∧
        create url peerHost peerRealm keyFile certFile caCertFile nextAddr = ([], nextAddr)) := by
  rw [create, isPeerAddress]
  cases ListenAddress.fromStr url with
  | error e => exact .inr ⟨rfl, rfl⟩
  | ok addr =>
    simp only [Except.toOption, Option.bind_some, ofAddress]
    by_cases htcp : toLowercase addr.protocol = "tcp".toList
    · simp only [htcp, if_true, decide_true, Bool.true_or]
      exact .inl ⟨trivial, _, rfl, rfl, rfl⟩
    · by_cases hsctp : toLowercase addr.protocol = "sctp".toList
      · simp only [hsctp, if_true, decide_true, Bool.or_true]
        exact .inl ⟨trivial, _, rfl, rfl, rfl⟩
      · simp only [htcp, hsctp, if_false, decide_false, Bool.or_false]
        exact .inr ⟨trivial, trivial⟩

end PeerConnection

/-! ### The recursion over expressions -/

/-- A character that is not an upper-case ASCII letter is its own lower case. -/
theorem toLower_of_not_upper {c : Char} (h : ¬(65 ≤ c.toNat ∧ c.toNat ≤ 90)) : c.toLower = c := by
  unfold Char.toLower
  refine dif_neg fun hupper => h ?_
  simp only [ge_iff_le, UInt32.le_iff_toNat_le] at hupper
  exact hupper

theorem toNat_toLower_of_upper {c : Char} (h : 65 ≤ c.toNat ∧ c.toNat ≤ 90) :
    c.toLower.toNat = c.toNat + 32 := by
  have hupper : c.val ≥ 'A'.val ∧ c.val ≤ 'Z'.val := by
    simp only [ge_iff_le, UInt32.le_iff_toNat_le]
    exact h
  unfold Char.toLower
  rw [dif_pos hupper]
  show (c.val + ('a'.val - 'A'.val)).toNat = c.val.toNat + 32
  rw [UInt32.toNat_add]
  have : c.val.toNat ≤ 90 := h.2
  show (c.val.toNat + 32) % 2 ^ 32 = _
  omega

theorem lowerChar_lowerChar (c : Char) : lowerChar (lowerChar c) = lowerChar c := by
  by_cases hc : c = '\u212A'
  · subst hc
    decide
  rw [show lowerChar c = c.toLower from if_neg hc]
  by_cases hupper : 65 ≤ c.toNat ∧ c.toNat ≤ 90
  · have hlower := toNat_toLower_of_upper hupper
    have hne : c.toLower ≠ '\u212A' := by
      intro heq
      rw [heq] at hlower
      have : ('\u212A').toNat = 8490 := rfl
      omega
    rw [lowerChar, if_neg hne, toLower_of_not_upper (by omega)]
  · rw [toLower_of_not_upper hupper, lowerChar, if_neg hc, toLower_of_not_upper hupper]

theorem toLowercase_toLowercase (s : List Char) :
    toLowercase (toLowercase s) = toLowercase s := by
  rw [toLowercase, toLowercase, List.map_map]
  exact List.map_congr_left fun c _ => lowerChar_lowerChar c

/-- Decreases along the recursion: a part is shorter, or it is the whole expression in
lower case. -/
def rank (config : List Char) : Nat :=
  2 * config.length + if toLowercase config = config then 0 else 1

theorem rank_lt_of_length_lt {p config : List Char} (h : p.length < config.length) :
    rank p < rank config := by
  unfold rank
  split <;> split <;> omega

theorem rank_argument_lt {config s : List Char} {strategy : LoadBalancerStrategy}
    (h : LoadBalancerStrategy.fromStr config = some (some strategy))
    (hs : strategy.argument? = some s) : rank s < rank config :=
  rank_lt_of_length_lt (LoadBalancerStrategy.length_argument_lt_of_fromStr h hs)

theorem rank_lt_of_fromStr_value {config : List Char} {values : List (List Char)}
    (h : LoadBalancerStrategy.fromStr config = some (some (.value values)))
    (hne : values ≠ [config]) : ∀ p ∈ values, rank p < rank config := by
  intro p hp
  rcases LoadBalancerStrategy.length_lt_of_fromStr h with heq | hlt
  · obtain rfl := LoadBalancerStrategy.value.inj heq
    obtain rfl := List.mem_singleton.mp hp
    have hupper : toLowercase config ≠ config := fun heq => hne (by rw [heq])
    have hlen : (toLowercase config).length = config.length := by
      rw [toLowercase, List.length_map]
    rw [rank, rank, if_pos (toLowercase_toLowercase config), if_neg hupper, hlen]
    omega
  · exact rank_lt_of_length_lt (hlt p hp)

namespace PeerConnection

variable (peerHost peerRealm : String)

mutual
/-- `create_connections`: the connections for an expression. A list passes the two files
on in the other order. -/
def createConnections (connectionUrl : List Char) (keyFile certFile caCertFile : String)
    (nextAddr : Nat) : OrPanic (List PeerConnection × Nat) :=
  match _h : LoadBalancerStrategy.fromStr connectionUrl with
  | none => none
  | some none => some ([], nextAddr)
  | some (some (.roundRobin peers)) =>
      (createConnections peers keyFile certFile caCertFile nextAddr).map
        (wrap .roundRobin peerHost peerRealm)
  | some (some (.failOver peers)) =>
      (createConnections peers keyFile certFile caCertFile nextAddr).map
        (wrap .failOver peerHost peerRealm)
  | some (some (.random peers)) =>
      (createConnections peers keyFile certFile caCertFile nextAddr).map
        (wrap .random peerHost peerRealm)
  | some (some (.value values)) =>
      if hv : values = [connectionUrl] then
        some (create connectionUrl peerHost peerRealm keyFile certFile caCertFile nextAddr)
      else
        createEach (rank connectionUrl) values (rank_lt_of_fromStr_value _h hv) certFile keyFile
          caCertFile nextAddr
termination_by (rank connectionUrl + 1, 0)
decreasing_by
  · exact .left _ _ (Nat.succ_lt_succ (rank_argument_lt _h rfl))
  · exact .left _ _ (Nat.succ_lt_succ (rank_argument_lt _h rfl))
  · exact .left _ _ (Nat.succ_lt_succ (rank_argument_lt _h rfl))
  · exact .left _ _ (Nat.lt_succ_self _)
/-- The connections for the parts of a list. -/
def createEach (n : Nat) (values : List (List Char)) (hn : ∀ p ∈ values, rank p < n)
    (keyFile certFile caCertFile : String) (nextAddr : Nat) :
    OrPanic (List PeerConnection × Nat) :=
  match values, hn with
  | [], _ => some ([], nextAddr)
  | v :: values, hn =>
      match createConnections v keyFile certFile caCertFile nextAddr with
      | none => none
      | some created =>
          (createEach n values (fun p hp => hn p (List.mem_cons_of_mem v hp)) keyFile certFile
            caCertFile created.2).map fun rest => (created.1 ++ rest.1, rest.2)
termination_by (n, values.length)
decreasing_by
  · rcases Nat.lt_or_eq_of_le (hn v List.mem_cons_self) with hlt | heq
    · exact .left _ _ hlt
    · exact heq ▸ .right _ (Nat.succ_pos _)
  · exact .right _ (Nat.lt_succ_self _)
end

end PeerConnection

/-! ### Parsing and building -/

/-- A parsed expression: nothing where it does not parse, an address, the argument of a
strategy, or a list. -/
inductive PeerExpr
  | invalid
  | address (url : List Char)
  | group (kind : ContainerKind) (argument : PeerExpr)
  | list (parts : List PeerExpr)
  deriving Repr

namespace PeerExpr

mutual
/-- Parse an expression, all levels of it. -/
def parse (config : List Char) : OrPanic PeerExpr :=
  match _h : LoadBalancerStrategy.fromStr config with
  | none => none
  | some none => some .invalid
  | some (some (.roundRobin s)) => (parse s).map (.group .roundRobin)
  | some (some (.failOver s)) => (parse s).map (.group .failOver)
  | some (some (.random s)) => (parse s).map (.group .random)
  | some (some (.value values)) =>
      if hv : values = [config] then some (.address config)
      else (parseEach (rank config) values (rank_lt_of_fromStr_value _h hv)).map .list
termination_by (rank config + 1, 0)
decreasing_by
  · exact .left _ _ (Nat.succ_lt_succ (rank_argument_lt _h rfl))
  · exact .left _ _ (Nat.succ_lt_succ (rank_argument_lt _h rfl))
  · exact .left _ _ (Nat.succ_lt_succ (rank_argument_lt _h rfl))
  · exact .left _ _ (Nat.lt_succ_self _)
/-- Parse the parts of a list. -/
def parseEach (n : Nat) (values : List (List Char)) (hn : ∀ p ∈ values, rank p < n) :
    OrPanic (List PeerExpr) :=
  match values, hn with
  | [], _ => some []
  | v :: values, hn =>
      match parse v with
      | none => none
      | some e => (parseEach n values fun p hp => hn p (List.mem_cons_of_mem v hp)).map (e :: ·)
termination_by (n, values.length)
decreasing_by
  · rcases Nat.lt_or_eq_of_le (hn v List.mem_cons_self) with hlt | heq
    · exact .left _ _ hlt
    · exact heq ▸ .right _ (Nat.succ_pos _)
  · exact .right _ (Nat.lt_succ_self _)
end

theorem parseEach_eq {n : Nat} {values : List (List Char)} (hn : ∀ p ∈ values, rank p < n) :
    parseEach n values hn = values.mapM parse := by
  induction values with
  | nil =>
    rw [parseEach]
    rfl
  | cons v values ih =>
    rw [parseEach, List.mapM_cons]
    cases parse v with
    | none => rfl
    | some e =>
      simp only [ih, Option.bind_eq_bind, Option.bind_some]
      cases values.mapM parse <;> rfl

theorem parse_of_address {config : List Char}
    (h : LoadBalancerStrategy.fromStr config = some (some (.value [config]))) :
    parse config = some (.address config) := by
  rw [parse]
  split <;> simp_all

theorem parse_of_random {config argument : List Char}
    (h : LoadBalancerStrategy.fromStr config = some (some (.random argument))) :
    parse config = (parse argument).map (.group .random) := by
  rw [parse]
  split <;> simp_all

theorem parse_of_list {config : List Char} {values : List (List Char)}
    (h : LoadBalancerStrategy.fromStr config = some (some (.value values)))
    (hne : values ≠ [config]) : parse config = (values.mapM parse).map .list := by
  rw [parse]
  split <;> simp_all [parseEach_eq]

/-- An expression with two addresses. -/
def twoAddresses : PeerExpr :=
  .list [.address "tcp://10.0.0.1:3868".toList, .address "tcp://10.0.0.2:3868".toList]

theorem parse_twoAddresses :
    parse "tcp://10.0.0.1:3868;tcp://10.0.0.2:3868".toList = some twoAddresses := by
  have hlist : LoadBalancerStrategy.fromStr "tcp://10.0.0.1:3868;tcp://10.0.0.2:3868".toList =
      some (some (.value ["tcp://10.0.0.1:3868".toList, "tcp://10.0.0.2:3868".toList])) := by
    decide
  rw [parse_of_list hlist (by decide), List.mapM_cons,
    parse_of_address (by decide), List.mapM_cons,
    parse_of_address (by decide)]
  rfl

variable (peerHost peerRealm : String)

mutual
/-- The connections for a parsed expression. -/
def build (keyFile certFile caCertFile : String) :
    PeerExpr → Nat → List PeerConnection × Nat
  | .invalid, nextAddr => ([], nextAddr)
  | .address url, nextAddr =>
      PeerConnection.create url peerHost peerRealm keyFile certFile caCertFile nextAddr
  | .group kind argument, nextAddr =>
      PeerConnection.wrap kind peerHost peerRealm
        (build keyFile certFile caCertFile argument nextAddr)
  | .list parts, nextAddr => buildEach certFile keyFile caCertFile parts nextAddr
/-- The connections for the parts of a list. -/
def buildEach (keyFile certFile caCertFile : String) :
    List PeerExpr → Nat → List PeerConnection × Nat
  | [], nextAddr => ([], nextAddr)
  | e :: es, nextAddr =>
      let created := build keyFile certFile caCertFile e nextAddr
      let rest := buildEach keyFile certFile caCertFile es created.2
      (created.1 ++ rest.1, rest.2)
end

theorem build_twoAddresses (keyFile certFile caCertFile : String) (nextAddr : Nat) :
    ∃ conn₁ conn₂, twoAddresses.build peerHost peerRealm keyFile certFile caCertFile nextAddr =
      ([.client nextAddr conn₁, .client (nextAddr + 1) conn₂], nextAddr + 2) := by
  have haddr : ∀ url ∈ ["tcp://10.0.0.1:3868".toList, "tcp://10.0.0.2:3868".toList],
      ∀ keyFile certFile caCertFile nextAddr, ∃ conn,
        PeerConnection.create url peerHost peerRealm keyFile certFile caCertFile nextAddr =
          ([.client nextAddr conn], nextAddr + 1) := by
    intro url hurl keyFile certFile caCertFile nextAddr
    have hpeer : PeerConnection.isPeerAddress url = true := by
      revert url
      decide
    rcases PeerConnection.create_cases url peerHost peerRealm keyFile certFile caCertFile
      nextAddr with ⟨-, conn, hcreate, -⟩ | ⟨hnot, -⟩
    · exact ⟨conn, hcreate⟩
    · exact absurd (hpeer.symm.trans hnot) (by decide)
  obtain ⟨conn₁, h₁⟩ := haddr "tcp://10.0.0.1:3868".toList (by simp) certFile keyFile
    caCertFile nextAddr
  obtain ⟨conn₂, h₂⟩ := haddr "tcp://10.0.0.2:3868".toList (by simp) certFile keyFile
    caCertFile (nextAddr + 1)
  refine ⟨conn₁, conn₂, ?_⟩
  rw [twoAddresses, build, buildEach, buildEach, buildEach, build, h₁, build, h₂]
  rfl

/-- Holds of the client connections of a peer, and of its containers over connections it
holds of. -/
structure Hereditary (P : PeerConnection → Prop) : Prop where
  client : ∀ url keyFile certFile caCertFile nextAddr, ∀ c ∈
    (PeerConnection.create url peerHost peerRealm keyFile certFile caCertFile nextAddr).1, P c
  container : ∀ kind addr connections, (∀ c ∈ connections, P c) →
    P (.container kind (PeerConnection.newHandle kind peerHost peerRealm addr) connections)

section
variable {peerHost peerRealm : String} {P : PeerConnection → Prop}

mutual
/-- So it holds of everything built. -/
theorem forall_build (h : Hereditary peerHost peerRealm P) (e : PeerExpr)
    (keyFile certFile caCertFile : String) (nextAddr : Nat) :
    ∀ c ∈ (e.build peerHost peerRealm keyFile certFile caCertFile nextAddr).1, P c := by
  match e with
  | .invalid => simp [build]
  | .address url => exact h.client url keyFile certFile caCertFile nextAddr
  | .group kind argument =>
    have hargument := forall_build h argument keyFile certFile caCertFile nextAddr
    rw [build, PeerConnection.wrap]
    split
    · rw [List.forall_mem_singleton]
      exact h.container _ _ _ hargument
    · exact hargument
  | .list parts => exact forall_buildEach h parts certFile keyFile caCertFile nextAddr
theorem forall_buildEach (h : Hereditary peerHost peerRealm P) (es : List PeerExpr)
    (keyFile certFile caCertFile : String) (nextAddr : Nat) :
    ∀ c ∈ (buildEach peerHost peerRealm keyFile certFile caCertFile es nextAddr).1, P c := by
  match es with
  | [] => simp [buildEach]
  | e :: es =>
    rw [buildEach, List.forall_mem_append]
    exact ⟨forall_build h e keyFile certFile caCertFile nextAddr,
      forall_buildEach h es keyFile certFile caCertFile _⟩
end

end

end PeerExpr

namespace PeerConnection

open PeerExpr

variable (peerHost peerRealm : String)

/-- Creating the parts of a list is building what they parse to. -/
theorem createEach_eq {n : Nat} {values : List (List Char)} {hn : ∀ p ∈ values, rank p < n}
    (h : ∀ v ∈ values, ∀ keyFile certFile caCertFile nextAddr,
      createConnections peerHost peerRealm v keyFile certFile caCertFile nextAddr =
        (parse v).map fun e =>
          build peerHost peerRealm keyFile certFile caCertFile e nextAddr)
    (keyFile certFile caCertFile : String) (nextAddr : Nat) :
    createEach peerHost peerRealm n values hn keyFile certFile caCertFile nextAddr =
      (parseEach n values hn).map fun es =>
        buildEach peerHost peerRealm keyFile certFile caCertFile es nextAddr := by
  induction values generalizing nextAddr with
  | nil =>
    rw [createEach, parseEach]
    rfl
  | cons v values ih =>
    rw [createEach, parseEach, h v List.mem_cons_self]
    cases parse v with
    | none => rfl
    | some e =>
      simp only [Option.map_some]
      rw [ih fun w hw => h w (List.mem_cons_of_mem v hw)]
      simp only [Option.map_map]
      rfl

/-- Creating the connections for an expression is building what it parses to. -/
theorem createConnections_eq (connectionUrl : List Char)
    (keyFile certFile caCertFile : String) (nextAddr : Nat) :
    createConnections peerHost peerRealm connectionUrl keyFile certFile caCertFile nextAddr =
      (parse connectionUrl).map fun e =>
        build peerHost peerRealm keyFile certFile caCertFile e nextAddr := by
  induction hn : rank connectionUrl using Nat.strongRecOn
    generalizing connectionUrl keyFile certFile caCertFile nextAddr with
  | ind n ih =>
    subst hn
    have hargument : ∀ {kind : ContainerKind} {s : List Char} {strategy},
        LoadBalancerStrategy.fromStr connectionUrl = some (some strategy) →
        strategy.argument? = some s →
        (createConnections peerHost peerRealm s keyFile certFile caCertFile nextAddr).map
            (wrap kind peerHost peerRealm) =
          ((parse s).map (.group kind)).map fun e =>
            build peerHost peerRealm keyFile certFile caCertFile e nextAddr := by
      intro kind s strategy h hs
      rw [ih _ (rank_argument_lt h hs) s _ _ _ _ rfl, Option.map_map, Option.map_map]
      rfl
    rw [createConnections, parse]
    split
    · rfl
    · rfl
    · exact hargument ‹_› rfl
    · exact hargument ‹_› rfl
    · exact hargument ‹_› rfl
    · rename_i values hvalues
      by_cases hv : values = [connectionUrl]
      · rw [dif_pos hv, dif_pos hv]
        rfl
      · have hlt := rank_lt_of_fromStr_value hvalues hv
        rw [dif_neg hv, dif_neg hv, createEach_eq peerHost peerRealm
          fun v hv' _ _ _ _ => ih _ (hlt v hv') v _ _ _ _ rfl, Option.map_map]
        rfl

end PeerConnection

/-! ### The configured peers -/

/-- A configured peer. -/
structure PeerConfig where
  host : String
  connectionUrl : String
  certFile : Option String
  keyFile : Option String
  caCertFile : Option String
  deriving Repr, DecidableEq

namespace PeerConfig

/-- The host in front of the first `@`. -/
def peerHost (peer : PeerConfig) : String :=
  match splitOnce ['@'] peer.host.toList with
  | some (host, _) => String.ofList host
  | none => peer.host

/-- The realm behind it. -/
def peerRealm (peer : PeerConfig) : String :=
  match splitOnce ['@'] peer.host.toList with
  | some (_, realm) => String.ofList realm
  | none => ""

end PeerConfig

/-- One turn of the loop of `connect_to_peers`: create the connections of a peer, then
register them one after another. The files are passed with the certificate first. -/
def connectToPeer (m : ConnectionManager) (peer : PeerConfig) :
    OrPanic (ConnectionManager × List PeerConnection) :=
  (PeerConnection.createConnections peer.peerHost peer.peerRealm peer.connectionUrl.toList
      (peer.certFile.getD "") (peer.keyFile.getD "") (peer.caCertFile.getD "") m.nextAddr).map
    fun created =>
      ((created.1.map PeerConnection.toConnection).foldl ConnectionManager.addConnection
        { m with nextAddr := created.2 }, created.1)

/-- `connect_to_peers`, with the connections created for each peer. -/
def connectToPeers (m : ConnectionManager) :
    List PeerConfig → OrPanic (ConnectionManager × List (PeerConfig × List PeerConnection))
  | [] => some (m, [])
  | peer :: peers =>
      match connectToPeer m peer with
      | none => none
      | some (m, conns) =>
          (connectToPeers m peers).map fun rest => (rest.1, (peer, conns) :: rest.2)

/-- The connections of the peer for its parsed expression. -/
def PeerConfig.build (peer : PeerConfig) (e : PeerExpr) (nextAddr : Nat) :
    List PeerConnection × Nat :=
  e.build peer.peerHost peer.peerRealm (peer.certFile.getD "") (peer.keyFile.getD "")
    (peer.caCertFile.getD "") nextAddr

/-- What was created for a peer is what its expression parses to, built. -/
theorem connectToPeer_eq (m : ConnectionManager) (peer : PeerConfig) :
    connectToPeer m peer = (PeerExpr.parse peer.connectionUrl.toList).map fun e =>
      (((peer.build e m.nextAddr).1.map PeerConnection.toConnection).foldl
        ConnectionManager.addConnection { m with nextAddr := (peer.build e m.nextAddr).2 },
        (peer.build e m.nextAddr).1) := by
  rw [connectToPeer, PeerConnection.createConnections_eq, Option.map_map]
  rfl

theorem connectToPeer_eq_some {m m' : ConnectionManager} {peer : PeerConfig}
    {conns : List PeerConnection} (h : connectToPeer m peer = some (m', conns)) :
    ∃ e, PeerExpr.parse peer.connectionUrl.toList = some e ∧
      conns = (peer.build e m.nextAddr).1 ∧
      m' = (conns.map PeerConnection.toConnection).foldl ConnectionManager.addConnection
        { m with nextAddr := (peer.build e m.nextAddr).2 } := by
  rw [connectToPeer_eq] at h
  obtain ⟨e, he, hpair⟩ := Option.map_eq_some_iff.mp h
  cases hpair
  exact ⟨e, he, rfl, rfl⟩

section
variable {m m' : ConnectionManager} {peer : PeerConfig} {peers : List PeerConfig}
  {created : List (PeerConfig × List PeerConnection)}

theorem connectToPeers_cons_eq_some (h : connectToPeers m (peer :: peers) = some (m', created)) :
    ∃ m₁ conns rest, connectToPeer m peer = some (m₁, conns) ∧
      connectToPeers m₁ peers = some (m', rest) ∧ created = (peer, conns) :: rest := by
  rw [connectToPeers] at h
  cases hpeer : connectToPeer m peer with
  | none =>
    rw [hpeer] at h
    cases h
  | some r =>
    rw [hpeer] at h
    obtain ⟨rest, hrest, hpair⟩ := Option.map_eq_some_iff.mp h
    cases hpair
    exact ⟨r.1, r.2, rest.2, rfl, hrest, rfl⟩

/-- Each peer had its turn, with some state of the manager. -/
theorem forall₂_of_connectToPeers (h : connectToPeers m peers = some (m', created)) :
    List.Forall₂ (fun peer p => p.1 = peer ∧ ∃ m₁ m₂, connectToPeer m₁ peer = some (m₂, p.2))
      peers created := by
  induction peers generalizing m created with
  | nil =>
    cases h
    exact .nil
  | cons peer peers ih =>
    obtain ⟨m₁, conns, rest, hpeer, hrest, rfl⟩ := connectToPeers_cons_eq_some h
    exact .cons ⟨rfl, m, m₁, hpeer⟩ (ih hrest)

end

/-- Connecting to a single peer whose expression parses. -/
theorem exists_connectToPeers_single (m : ConnectionManager) (peer : PeerConfig) {e : PeerExpr}
    (h : PeerExpr.parse peer.connectionUrl.toList = some e) :
    ∃ m' conns, connectToPeer m peer = some (m', conns) ∧
      connectToPeers m [peer] = some (m', [(peer, conns)]) := by
  have hpeer := connectToPeer_eq m peer
  rw [h] at hpeer
  refine ⟨_, _, hpeer, ?_⟩
  rw [connectToPeers, hpeer]
  rfl

end RestDiameterBridge
