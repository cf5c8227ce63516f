import Mathlib.Data.List.AList
import RestDiameterBridge.Command
import RestDiameterBridge.LoadBalancerStrategy
import RestDiameterBridge.Transport.Connection

/-!
# RestDiameterBridge.Transport.Routing

Policy-based routing (`src/transport/routing_connection.rs`).

A route expression is turned into a tree of containers whose leaves are *slots*: empty
round-robin containers that peer connections are put into later, looked up by the
lower-cased name the slot has in the expression. The tree of a `RoutingConnection` never
changes; what does is `members`, the connections in each slot.

`RoutingConnectionManager.addConnection` looks up the routing items by the identity of
the peer, `getConnectionsForCommand` by the destination of the command.
-/

namespace RestDiameterBridge

open Connection

/-! ### Configuration -/

/-- How commands are matched to routing items. -/
inductive RoutingPolicy
  | realm
  | host
  deriving Repr, DecidableEq

/-- The policy of that name, in any letter case. -/
def RoutingPolicy.fromStr (s : String) : Option RoutingPolicy :=
  if toUppercase s.toList = "REALM".toList then some .realm
  else if toUppercase s.toList = "HOST".toList then some .host
  else none

/-- One configured routing item. -/
structure RoutingItemConfig where
  hostRealms : Option (List String)
  applicationIds : Option (List UInt32)
  route : String
  deriving Repr, DecidableEq

/-- The routing part of the configuration. -/
structure StackRoutingConfig where
  policy : String
  default : Option String
  items : Option (List RoutingItemConfig)
  deriving Repr, DecidableEq

/-! ### Routes -/

/-- The containers built from a route expression. -/
inductive Route
  | slot (self : Handle)
  | container (kind : ContainerKind) (self : Handle) (routes : List Route)
  deriving Repr

namespace Route

mutual
/-- The route with the connections its slots hold. -/
def toConnection (members : Nat → List Connection) : Route → Connection
  | slot self => .container .roundRobin self (members self.addr)
  | container kind self routes => .container kind self (toConnections members routes)
/-- The routes with the connections their slots hold. -/
def toConnections (members : Nat → List Connection) : List Route → List Connection
  | [] => []
  | r :: rs => r.toConnection members :: toConnections members rs
end

mutual
/-- The allocations of the slots of a route. -/
def slots : Route → List Nat
  | slot self => [self.addr]
  | container _ _ routes => slotsList routes
/-- The allocations of the slots of a list of routes. -/
def slotsList : List Route → List Nat
  | [] => []
  | r :: rs => r.slots ++ slotsList rs
end

@[simp] theorem slotsList_append (rs ts : List Route) :
    slotsList (rs ++ ts) = slotsList rs ++ slotsList ts := by
  induction rs with
  | nil => rfl
  | cons r rs ih => rw [List.cons_append, slotsList, ih, slotsList, List.append_assoc]

mutual
/-- The leaves of a route are those of the connections in its slots. -/
theorem mem_leaves_toConnection {members : Nat → List Connection} {c : Connection} (r : Route) :
    c ∈ (r.toConnection members).leaves ↔ ∃ a ∈ r.slots, c ∈ leavesList (members a) := by
  match r with
  | slot self => simp [toConnection, slots, leaves]
  | container kind self routes =>
    rw [toConnection, leaves, slots]
    exact mem_leavesList_toConnections routes
/-- The leaves of a list of routes are those of the connections in its slots. -/
theorem mem_leavesList_toConnections {members : Nat → List Connection} {c : Connection}
    (rs : List Route) :
    c ∈ leavesList (toConnections members rs) ↔
      ∃ a ∈ slotsList rs, c ∈ leavesList (members a) := by
  match rs with
  | [] => simp [toConnections, slotsList, leavesList]
  | r :: rs =>
    rw [toConnections, leavesList, slotsList, List.mem_append, mem_leaves_toConnection r,
      mem_leavesList_toConnections rs]
    simp only [List.mem_append, or_and_right, exists_or]
end

end Route

/-- The state of `create_connection_from`: the allocations made, and the slot of each
name. -/
structure RouteBuilder where
  nextAddr : Nat
  slots : AList fun _ : String => Nat

namespace RouteBuilder

/-- The handle of the next container. The random part of its id is the allocation. -/
def handle (b : RouteBuilder) (kind : ContainerKind) : Handle :=
  match kind with
  | .roundRobin =>
      ⟨b.nextAddr, s!"round_robin-{b.nextAddr}", "unknown-peer", "unknown-realm"⟩
  | .failOver => ⟨b.nextAddr, s!"failover-{b.nextAddr}", "unknown-peer", "unknown-realm"⟩
  | .random =>
      ⟨b.nextAddr, s!"random-{b.nextAddr}", s!"random-host{b.nextAddr}",
        s!"random-realm{b.nextAddr}"⟩

/-- Put the connections created for the argument of a strategy into its container. -/
def wrap (kind : ContainerKind) :
    Option (List Route) × RouteBuilder → Option (List Route) × RouteBuilder
  | (some routes, b) =>
      (some [.container kind (b.handle kind) routes], { b with nextAddr := b.nextAddr + 1 })
  | (none, b) => (none, b)

/-- An empty slot under the given name. -/
def slot (b : RouteBuilder) (name : List Char) : Option (List Route) × RouteBuilder :=
  (some [.slot (b.handle .roundRobin)],
    { nextAddr := b.nextAddr + 1, slots := b.slots.insert (String.ofList name) b.nextAddr })

end RouteBuilder

mutual
/-- The containers for a route expression. There are none if its parentheses do not
balance. -/
def createConnectionFrom (config : List Char) (b : RouteBuilder) :
    OrPanic (Option (List Route) × RouteBuilder) :=
  match _h : LoadBalancerStrategy.fromStr config with
  | none => none
  | some none => some (none, b)
  | some (some (.roundRobin s)) => (createConnectionFrom s b).map (RouteBuilder.wrap .roundRobin)
  | some (some (.random s)) => (createConnectionFrom s b).map (RouteBuilder.wrap .random)
  | some (some (.failOver s)) => (createConnectionFrom s b).map (RouteBuilder.wrap .failOver)
  | some (some (.value values)) =>
      if hl : values.length = 1 then some (b.slot values[0])
      else
        (createEach config.length values
          (LoadBalancerStrategy.length_lt_of_fromStr_value _h hl) b).map
          fun (routes, b) => (some routes, b)
termination_by (config.length + 1, 0)
decreasing_by
  · exact .left _ _ (Nat.succ_lt_succ (LoadBalancerStrategy.length_argument_lt_of_fromStr _h rfl))
  · exact .left _ _ (Nat.succ_lt_succ (LoadBalancerStrategy.length_argument_lt_of_fromStr _h rfl))
  · exact .left _ _ (Nat.succ_lt_succ (LoadBalancerStrategy.length_argument_lt_of_fromStr _h rfl))
  · exact .left _ _ (Nat.lt_succ_self _)
/-- The containers for the parts of a list, without those that yield none. -/
def createEach (n : Nat) (values : List (List Char)) (hn : ∀ p ∈ values, p.length < n)
    (b : RouteBuilder) : OrPanic (List Route × RouteBuilder) :=
  match values, hn with
  | [], _ => some ([], b)
  | v :: values, hn =>
      match createConnectionFrom v b with
      | none => none
      | some (routes, b) =>
          (createEach n values (fun p hp => hn p (List.mem_cons_of_mem v hp)) b).map
            fun (rest, b) => (routes.getD [] ++ rest, b)
termination_by (n, values.length)
decreasing_by
  · rcases Nat.lt_or_eq_of_le (hn v List.mem_cons_self) with hlt | heq
    · exact .left _ _ hlt
    · exact heq ▸ .right _ (Nat.succ_pos _)
  · exact .right _ (Nat.lt_succ_self _)
end

/-- The strategy of a kind of container. -/
def LoadBalancerStrategy.container : ContainerKind → List Char → LoadBalancerStrategy
  | .roundRobin => .roundRobin
  | .failOver => .failOver
  | .random => .random

/-- Every slot named between the two states is one of the routes. -/
def SlotsFrom (b b' : RouteBuilder) (routes : List Route) : Prop :=
  ∀ name a, b'.slots.lookup name = some a →
    b.slots.lookup name = some a ∨ a ∈ Route.slotsList routes

theorem SlotsFrom.trans {b b₁ b' : RouteBuilder} {rs ts : List Route} (h₁ : SlotsFrom b b₁ rs)
    (h₂ : SlotsFrom b₁ b' ts) : SlotsFrom b b' (rs ++ ts) := by
  intro name a ha
  rw [Route.slotsList_append, List.mem_append]
  rcases h₂ name a ha with ha | ha
  · exact (h₁ name a ha).imp_right .inl
  · exact .inr (.inr ha)

theorem SlotsFrom.wrap {b b' : RouteBuilder} {kind : ContainerKind}
    {r : Option (List Route) × RouteBuilder} {routes : Option (List Route)}
    (h : SlotsFrom b r.2 (r.1.getD [])) (hw : RouteBuilder.wrap kind r = (routes, b')) :
    SlotsFrom b b' (routes.getD []) := by
  obtain ⟨rs, b₁⟩ := r
  cases rs with
  | none =>
    cases hw
    exact h
  | some rs =>
    cases hw
    simpa [SlotsFrom, Route.slotsList, Route.slots] using h

theorem slotsFrom_slot (b : RouteBuilder) (name : List Char) :
    SlotsFrom b (b.slot name).2 ((b.slot name).1.getD []) := by
  intro name' a ha
  simp only [RouteBuilder.slot] at ha
  by_cases hname : name' = String.ofList name
  · rw [hname, AList.lookup_insert] at ha
    exact .inr (by simp [RouteBuilder.slot, Route.slotsList, Route.slots, RouteBuilder.handle,
      Option.some.inj ha])
  · rw [AList.lookup_insert_ne hname] at ha
    exact .inl ha

section
variable {config s : List Char} {b : RouteBuilder} {values : List (List Char)}

theorem createConnectionFrom_of_none (h : LoadBalancerStrategy.fromStr config = some none) :
    createConnectionFrom config b = some (none, b) := by
  unfold createConnectionFrom
  split <;> simp_all

theorem createConnectionFrom_of_container {kind : ContainerKind}
    (h : LoadBalancerStrategy.fromStr config = some (some (.container kind s))) :
    createConnectionFrom config b = (createConnectionFrom s b).map (RouteBuilder.wrap kind) := by
  rw [createConnectionFrom]
  cases kind with
  | _ => split <;> simp_all [LoadBalancerStrategy.container]

theorem createConnectionFrom_of_argument {strategy : LoadBalancerStrategy}
    (h : LoadBalancerStrategy.fromStr config = some (some strategy))
    (hs : strategy.argument? = some s) :
    ∃ kind, createConnectionFrom config b =
      (createConnectionFrom s b).map (RouteBuilder.wrap kind) := by
  cases strategy with
  | value values => cases hs
  | roundRobin s' =>
    obtain rfl := Option.some.inj hs
    exact ⟨.roundRobin, createConnectionFrom_of_container h⟩
  | failOver s' =>
    obtain rfl := Option.some.inj hs
    exact ⟨.failOver, createConnectionFrom_of_container h⟩
  | random s' =>
    obtain rfl := Option.some.inj hs
    exact ⟨.random, createConnectionFrom_of_container h⟩

theorem createConnectionFrom_of_single
    (h : LoadBalancerStrategy.fromStr config = some (some (.value values)))
    (hl : values.length = 1) : createConnectionFrom config b = some (b.slot values[0]) := by
  unfold createConnectionFrom
  split <;> simp_all

theorem createConnectionFrom_of_values
    (h : LoadBalancerStrategy.fromStr config = some (some (.value values)))
    (hl : ¬values.length = 1) :
    createConnectionFrom config b =
      (createEach config.length values
        (LoadBalancerStrategy.length_lt_of_fromStr_value h hl) b).map
        fun (routes, b) => (some routes, b) := by
  rw [createConnectionFrom]
  split
  case h_6 values' h' =>
    cases h.symm.trans h'
    rw [dif_neg hl]
  all_goals simp_all

end

/-- Whatever is created, its named slots are among its containers. -/
theorem slotsFrom_createConnectionFrom (config : List Char) (b : RouteBuilder) :
    ∀ routes b', createConnectionFrom config b = some (routes, b') →
      SlotsFrom b b' (routes.getD []) := by
  have hargument : ∀ {config s : List Char} {b : RouteBuilder} {strategy : LoadBalancerStrategy},
      LoadBalancerStrategy.fromStr config = some (some strategy) → strategy.argument? = some s →
      (∀ routes b', createConnectionFrom s b = some (routes, b') →
        SlotsFrom b b' (routes.getD [])) →
      ∀ routes b', createConnectionFrom config b = some (routes, b') →
        SlotsFrom b b' (routes.getD []) := by
    intro config s b strategy h hs ih routes b' hr
    obtain ⟨kind, hcreate⟩ := createConnectionFrom_of_argument (b := b) h hs
    rw [hcreate] at hr
    obtain ⟨r, hr, hw⟩ := Option.map_eq_some_iff.mp hr
    exact SlotsFrom.wrap (ih r.1 r.2 hr) hw
  refine (createConnectionFrom.mutual_induct
    (fun config b => ∀ routes b', createConnectionFrom config b = some (routes, b') →
      SlotsFrom b b' (routes.getD []))
    (fun n values hn b => ∀ routes b', createEach n values hn b = some (routes, b') →
      SlotsFrom b b' routes) ?_ ?_ ?_ ?_ ?_ ?_ ?_ ?_ ?_ ?_).1 config b
  -- expressions that do not parse, or name no strategy
  case refine_1 =>
    intro config b h routes b' hr
    unfold createConnectionFrom at hr
    split at hr <;> simp_all
  case refine_2 =>
    intro config b h routes b' hr
    rw [createConnectionFrom_of_none h] at hr
    cases hr
    exact fun _ _ => .inl
  -- the three containers
  case refine_3 | refine_4 | refine_5 =>
    intro config b s h ih
    exact hargument h rfl ih
  -- a single name makes a slot, several are created one after another
  case refine_6 =>
    intro config b values h hl routes b' hr
    rw [createConnectionFrom_of_single h hl] at hr
    cases hr
    exact slotsFrom_slot b _
  case refine_7 =>
    intro config b values h hl ih routes b' hr
    rw [createConnectionFrom_of_values h hl] at hr
    obtain ⟨r, hr', hw⟩ := Option.map_eq_some_iff.mp hr
    cases hw
    exact ih _ _ hr'
  -- `createEach`: no value left, a value that fails, a value and the rest
  case refine_8 =>
    intro n b _ _ routes b' hr
    rw [createEach] at hr
    cases hr
    exact fun _ _ => .inl
  case refine_9 =>
    intro n b v values hn hv _ _ routes b' hr
    rw [createEach, hv] at hr
    cases hr
  case refine_10 =>
    intro n b v values hn routes₁ b₁ hv _ ih₁ ih routes b' hr
    rw [createEach, hv] at hr
    obtain ⟨r, hr', hw⟩ := Option.map_eq_some_iff.mp hr
    cases hw
    exact (ih₁ _ _ hv).trans (ih _ _ hr')

/-! ### Routing connections -/

/-- The key under which a peer or a destination is looked up. -/
def hostRealm (host realm : String) : String := host ++ "@" ++ realm

/-- `host@realm` of the peer of a connection. -/
def Connection.peerKey (c : Connection) : String := hostRealm c.self.peerHost c.self.peerRealm

/-- One parsed route expression, with the connections put into its slots. -/
structure RoutingConnection where
  connection : Route
  hostRealmConnections : AList fun _ : String => Nat
  members : Nat → List Connection
  slots_of_lookup : ∀ name a, hostRealmConnections.lookup name = some a → a ∈ connection.slots

namespace RoutingConnection

/-- The connection for what was created: a single one itself, several under round-robin,
the initial empty container for none. -/
def root (b : RouteBuilder) : List Route → Route
  | [] => .container .roundRobin ⟨0, "round_robin-0", "unknown-peer", "unknown-realm"⟩ []
  | [route] => route
  | routes => .container .roundRobin (b.handle .roundRobin) routes

theorem slots_root (b : RouteBuilder) (routes : List Route) :
    (root b routes).slots = Route.slotsList routes := by
  match routes with
  | [] => rfl
  | [route] => simp [root, Route.slotsList]
  | _ :: _ :: _ => rfl

/-- The routing connection for a route expression. -/
def new (config : String) : OrPanic RoutingConnection :=
  match h : createConnectionFrom config.toList { nextAddr := 1, slots := ∅ } with
  | none => none
  | some (routes, b) => some
      { connection := root b (routes.getD [])
        hostRealmConnections := b.slots
        members := fun _ => []
        slots_of_lookup := fun name a ha => by
          rw [slots_root]
          rcases slotsFrom_createConnectionFrom _ _ _ _ h name a ha with hempty | hmem
          · simp at hempty
          · exact hmem }

/-- Change what the slot of that name holds. -/
def updateSlotAt (rc : RoutingConnection) (k : String)
    (f : List Connection → List Connection) : RoutingConnection :=
  match rc.hostRealmConnections.lookup k with
  | some a => { rc with members := Function.update rc.members a (f (rc.members a)) }
  | none => rc

/-- Change what the slots named after the peer of `c` hold: first the one for its
`host@realm`, then the one for its realm. -/
def updateSlotsOf (rc : RoutingConnection) (c : Connection)
    (f : List Connection → List Connection) : RoutingConnection :=
  (rc.updateSlotAt c.peerKey f).updateSlotAt c.self.peerRealm f

/-- Put a connection into the slots named after its peer. -/
def addConnection (rc : RoutingConnection) (c : Connection) : RoutingConnection :=
  rc.updateSlotsOf c (· ++ [c])

/-- Take a connection out of the slots named after its peer. -/
def removeConnection (rc : RoutingConnection) (c : Connection) : RoutingConnection :=
  rc.updateSlotsOf c (·.filter fun conn => conn.self.addr ≠ c.self.addr)

/-- The connections of the route in the order of its outermost container. -/
def getConnections (rc : RoutingConnection) (s : Balancers) : List Connection × Balancers :=
  (rc.connection.toConnection rc.members).getConnections s

end RoutingConnection

/-! ### The manager -/

/-- A configured item; items listed under several keys share their routing connection,
which is kept by its position among those created. -/
structure RoutingItem where
  applicationIds : Option (List UInt32)
  hostRealms : Option (List String)
  routingConnection : Nat
  deriving Repr, DecidableEq

/-- Without application ids an item is for all applications. -/
def RoutingItem.containsAppId (item : RoutingItem) (appId : UInt32) : Bool :=
  match item.applicationIds with
  | none => true
  | some ids => ids.contains appId

/-- All routes of a stack. -/
structure RoutingConnectionManager where
  policy : RoutingPolicy
  created : List RoutingConnection
  routingConnections : AList fun _ : String => RoutingItem
  defaultRoutingConnection : Option RoutingConnection
  lt_length_created : ∀ key item, routingConnections.lookup key = some item →
    item.routingConnection < created.length

/-- List an item under several keys. -/
def insertAll (map : AList fun _ : String => RoutingItem) (hostRealms : List String)
    (item : RoutingItem) : AList fun _ : String => RoutingItem :=
  hostRealms.foldl (fun map hr => map.insert hr item) map

theorem lookup_insertAll (map : AList fun _ : String => RoutingItem) (hostRealms : List String)
    (item : RoutingItem) (key : String) :
    (insertAll map hostRealms item).lookup key =
      if key ∈ hostRealms then some item else map.lookup key := by
  induction hostRealms generalizing map with
  | nil => simp [insertAll]
  | cons hr hostRealms ih =>
    rw [insertAll, List.foldl_cons]
    refine (ih _).trans ?_
    by_cases hmem : key ∈ hostRealms
    · simp [hmem]
    · by_cases hkey : key = hr
      · subst hkey
        simp [hmem]
      · simp [hkey, hmem, AList.lookup_insert_ne hkey]

namespace RoutingConnectionManager

/-- One turn of the loop over the configured items. -/
def addItem (m : RoutingConnectionManager) (item : RoutingItemConfig) :
    OrPanic RoutingConnectionManager :=
  (RoutingConnection.new item.route).map fun conn =>
    let routingItem : RoutingItem :=
      { applicationIds := item.applicationIds, hostRealms := item.hostRealms
        routingConnection := m.created.length }
    { m with
      created := m.created ++ [conn]
      routingConnections :=
        insertAll m.routingConnections (routingItem.hostRealms.getD []) routingItem
      lt_length_created := fun key item' h => by
        rw [List.length_append, List.length_singleton]
        rw [lookup_insertAll] at h
        split at h
        · rw [← Option.some.inj h]
          exact Nat.lt_succ_self _
        · exact Nat.lt_succ_of_lt (m.lt_length_created key item' h) }

/-- The manager for a configuration. -/
def new (stackRouting : StackRoutingConfig) : OrPanic RoutingConnectionManager :=
  let policy := (RoutingPolicy.fromStr stackRouting.policy).getD .realm
  match stackRouting.default.mapM RoutingConnection.new with
  | none => none
  | some default =>
      (stackRouting.items.getD []).foldlM addItem
        { policy, created := [], routingConnections := ∅, defaultRoutingConnection := default
          lt_length_created := fun _ _ h => by simp at h }

/-- Change the route of the item listed under `key`. -/
def updateRouteAt (m : RoutingConnectionManager) (key : String)
    (f : RoutingConnection → RoutingConnection) : RoutingConnectionManager :=
  match m.routingConnections.lookup key with
  | some item =>
      { m with
        created := m.created.modify item.routingConnection f
        lt_length_created := fun key item h => by
          rw [List.length_modify]
          exact m.lt_length_created key item h }
  | none => m

/-- Change the routes of the items listed under the realm and the `host@realm` of the
peer of `c`, and the default route. -/
def updateRoutesOf (m : RoutingConnectionManager) (c : Connection)
    (f : RoutingConnection → RoutingConnection) : RoutingConnectionManager :=
  let m := (m.updateRouteAt c.self.peerRealm f).updateRouteAt c.peerKey f
  { m with defaultRoutingConnection := m.defaultRoutingConnection.map f }

/-- Put a peer connection into all matching routes. -/
def addConnection (m : RoutingConnectionManager) (c : Connection) : RoutingConnectionManager :=
  m.updateRoutesOf c (·.addConnection c)

/-- Take a peer connection out of all matching routes. -/
def removeConnection (m : RoutingConnectionManager) (c : Connection) : RoutingConnectionManager :=
  m.updateRoutesOf c (·.removeConnection c)

/-- The key of a command under the policy. -/
def key (m : RoutingConnectionManager) (command : Command) : String :=
  let host := command.getDestinationHost.getD ""
  let realm := command.getDestinationRealm.getD ""
  match m.policy with
  | .realm => realm
  | .host => hostRealm host realm

/-- The connections of the default route, if there is one. -/
def getDefaultConnections (m : RoutingConnectionManager) (s : Balancers) :
    List Connection × Balancers :=
  match m.defaultRoutingConnection with
  | some route => route.getConnections s
  | none => ([], s)

/-- The connections a command is sent to: those of the item for its key if the item
admits its application, else those of the default route. -/
def getConnectionsForCommand (m : RoutingConnectionManager) (s : Balancers) (command : Command) :
    List Connection × Balancers :=
  match h : m.routingConnections.lookup (m.key command) with
  | some item =>
      if item.containsAppId command.applicationId then
        (m.created.get ⟨item.routingConnection, m.lt_length_created _ _ h⟩).getConnections s
      else m.getDefaultConnections s
  | none => m.getDefaultConnections s

end RoutingConnectionManager

end RestDiameterBridge
