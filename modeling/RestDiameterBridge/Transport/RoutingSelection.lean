import RestDiameterBridge.Transport.RoutingReach
import RestDiameterBridge.Transport.Send

/-!
# RestDiameterBridge.Transport.RoutingSelection

Which route a command is sent over.

`get_connections_for_command` and `find_send_command` make the same choice (`selected`):
the item the key of the command leads to, if it admits the application, else the default
route. A key leads to the last item that lists it, so an earlier item with other
application ids is never looked at (`selected_eq_item_iff`).
-/

namespace RestDiameterBridge

open Connection

/-- `send` of a route, through the connections its slots hold. -/
def RoutingConnection.send (rc : RoutingConnection) (outcome : Handle → Except String Unit)
    (s : Balancers) : SendOutcome Handle :=
  (rc.connection.toConnection rc.members).send outcome s

/-- The route a command takes. -/
inductive SelectedRoute
  | item (i : Nat)
  | default
  | none
  deriving Repr, DecidableEq

namespace RoutingConnectionManager

/-- `send` over the default route, if there is one. -/
def sendDefault (m : RoutingConnectionManager) (outcome : Handle → Except String Unit)
    (s : Balancers) : SendOutcome Handle :=
  match m.defaultRoutingConnection with
  | some route => route.send outcome s
  | none => { result := .error "No routing connection found", attempts := [], state := s }

/-- The route of an item that a key leads to. -/
def routeFor (m : RoutingConnectionManager) {key : String} {item : RoutingItem}
    (h : m.routingConnections.lookup key = some item) : RoutingConnection :=
  m.created.get ⟨item.routingConnection, m.lt_length_created key item h⟩

/-- `find_send_command`, where `outcome` says what each peer connection answers. -/
def findSendCommand (m : RoutingConnectionManager) (outcome : Handle → Except String Unit)
    (s : Balancers) (command : Command) : SendOutcome Handle :=
  match h : m.routingConnections.lookup (m.key command) with
  | some item =>
      if item.containsAppId command.applicationId then (m.routeFor h).send outcome s
      else m.sendDefault outcome s
  | none => m.sendDefault outcome s

/-! ### The route selected -/

/-- The default route, if there is one. -/
def selectedDefault (m : RoutingConnectionManager) : SelectedRoute :=
  if m.defaultRoutingConnection.isSome then .default else .none

/-- The route a command takes. -/
def selected (m : RoutingConnectionManager) (command : Command) : SelectedRoute :=
  match m.routingConnections.lookup (m.key command) with
  | some item =>
      if item.containsAppId command.applicationId then .item item.routingConnection
      else m.selectedDefault
  | none => m.selectedDefault

/-- The connections of a selected route. -/
def connectionsOver (m : RoutingConnectionManager) (s : Balancers) :
    SelectedRoute → List Connection × Balancers
  | .item i => ((m.created[i]?).map (·.getConnections s)).getD ([], s)
  | .default => m.getDefaultConnections s
  | .none => ([], s)

/-- `send` over a selected route. -/
def sendOver (m : RoutingConnectionManager) (outcome : Handle → Except String Unit)
    (s : Balancers) : SelectedRoute → SendOutcome Handle
  | .item i => ((m.created[i]?).map (·.send outcome s)).getD (m.sendDefault outcome s)
  | .default => m.sendDefault outcome s
  | .none => { result := .error "No routing connection found", attempts := [], state := s }

section
variable {m : RoutingConnectionManager} {command : Command} {s : Balancers}
  {outcome : Handle → Except String Unit}

theorem connectionsOver_selectedDefault :
    m.connectionsOver s m.selectedDefault = m.getDefaultConnections s := by
  rw [selectedDefault]
  cases h : m.defaultRoutingConnection with
  | none =>
    rw [getDefaultConnections, h]
    rfl
  | some route => rfl

theorem sendOver_selectedDefault :
    m.sendOver outcome s m.selectedDefault = m.sendDefault outcome s := by
  rw [selectedDefault]
  cases h : m.defaultRoutingConnection with
  | none =>
    rw [sendDefault, h]
    rfl
  | some route => rfl

theorem selected_of_some {item : RoutingItem}
    (h : m.routingConnections.lookup (m.key command) = some item) :
    m.selected command =
      if item.containsAppId command.applicationId then .item item.routingConnection
      else m.selectedDefault := by
  rw [selected, h]

theorem selected_of_none (h : m.routingConnections.lookup (m.key command) = none) :
    m.selected command = m.selectedDefault := by
  rw [selected, h]

/-- A command is handed the connections of the route selected for it. -/
theorem getConnectionsForCommand_eq :
    m.getConnectionsForCommand s command = m.connectionsOver s (m.selected command) := by
  unfold getConnectionsForCommand
  split
  · rename_i item hitem
    have hlt := m.lt_length_created _ _ hitem
    rw [selected_of_some hitem]
    by_cases happ : item.containsAppId command.applicationId = true
    · simp only [happ, if_true, connectionsOver, List.getElem?_eq_getElem hlt]
      rfl
    · simp only [happ, if_false, connectionsOver_selectedDefault, Bool.false_eq_true]
  · rename_i hnone
    rw [selected_of_none hnone]
    exact connectionsOver_selectedDefault.symm

/-- A command is sent over the route selected for it. -/
theorem findSendCommand_eq :
    m.findSendCommand outcome s command = m.sendOver outcome s (m.selected command) := by
  unfold findSendCommand
  split
  · rename_i item hitem
    have hlt := m.lt_length_created _ _ hitem
    rw [selected_of_some hitem]
    by_cases happ : item.containsAppId command.applicationId = true
    · simp only [happ, if_true, sendOver, List.getElem?_eq_getElem hlt]
      rfl
    · simp only [happ, if_false, sendOver_selectedDefault, Bool.false_eq_true]
  · rename_i hnone
    rw [selected_of_none hnone]
    exact sendOver_selectedDefault.symm

end

/-! ### The items of a configuration -/

/-- The item is for all applications or for this one. -/
def Admits (item : RoutingItemConfig) (appId : UInt32) : Prop :=
  ∀ ids, item.applicationIds = some ids → appId ∈ ids

/-- Item `i` lists the key and is for the application. -/
def Matches (items : List RoutingItemConfig) (key : String) (appId : UInt32) (i : Nat) : Prop :=
  ∃ item, items[i]? = some item ∧ key ∈ item.hostRealms.getD [] ∧ Admits item appId

theorem containsAppId_iff {r : RoutingItem} {item : RoutingItemConfig} {appId : UInt32}
    (h : r.applicationIds = item.applicationIds) :
    r.containsAppId appId = true ↔ Admits item appId := by
  rw [RoutingItem.containsAppId, Admits, h]
  cases item.applicationIds with
  | none => simp
  | some ids => simp

section
variable {items : List RoutingItemConfig} {m m' : RoutingConnectionManager} {command : Command}
  {i : Nat}

theorem selectedDefault_ne_item : m.selectedDefault ≠ .item i := by
  rw [selectedDefault]
  split <;> simp

/-- A command takes the route of an item exactly if no later item lists its key and the
item admits its application. -/
theorem Built.selected_eq_item_iff (h : Built items m) :
    m.selected command = .item i ↔
      LastListing items (m.key command) i ∧
        Matches items (m.key command) command.applicationId i := by
  have hlookup := h.lookup (m.key command)
  rw [selected]
  constructor
  · intro hsel
    split at hsel
    · rename_i r hr
      obtain ⟨item, hitem, hlast, happ, -⟩ := (hlookup r).mp hr
      split at hsel
      · rename_i hadmits
        obtain rfl := SelectedRoute.item.inj hsel
        obtain ⟨item', hitem', hkey⟩ := hlast.1
        cases hitem.symm.trans hitem'
        exact ⟨hlast, item, hitem, hkey, (containsAppId_iff happ).mp hadmits⟩
      · exact absurd hsel selectedDefault_ne_item
    · exact absurd hsel selectedDefault_ne_item
  · intro hboth
    obtain ⟨hlast, item, hitem, -, hadmits⟩ := hboth
    have hr := (hlookup ⟨item.applicationIds, item.hostRealms, i⟩).mpr
      ⟨item, hitem, hlast, rfl, rfl⟩
    rw [hr]
    exact if_pos ((containsAppId_iff rfl).mpr hadmits)

theorem key_of_shape (h : m'.shape = m.shape) : m'.key command = m.key command := by
  have hpolicy : m'.policy = m.policy := congrArg (·.1) h
  simp only [key, hpolicy]

/-- Connections coming and going do not change which commands take the route of an
item. -/
theorem selected_eq_item_of_shape (h : m'.shape = m.shape) :
    m'.selected command = .item i ↔ m.selected command = .item i := by
  have hlookup : m'.routingConnections = m.routingConnections := congrArg (·.2.1) h
  rw [selected, selected, key_of_shape h, hlookup]
  split
  · split
    · rfl
    · exact iff_of_false selectedDefault_ne_item selectedDefault_ne_item
  · exact iff_of_false selectedDefault_ne_item selectedDefault_ne_item

end

theorem LastListing.unique {items : List RoutingItemConfig} {key : String} {i j : Nat}
    (hi : LastListing items key i) (hj : LastListing items key j) : i = j := by
  obtain ⟨⟨item, hitem, hkey⟩, hle⟩ := hi
  obtain ⟨⟨item', hitem', hkey'⟩, hle'⟩ := hj
  exact Nat.le_antisymm (hle' i item hitem hkey) (hle j item' hitem' hkey')

/-- Some item is the last that lists a listed key. -/
theorem exists_lastListing {items : List RoutingItemConfig} {key : String} {j : Nat}
    {item : RoutingItemConfig} (hitem : items[j]? = some item)
    (hkey : key ∈ item.hostRealms.getD []) : ∃ i, LastListing items key i := by
  classical
  let lists := fun j : Nat => ∃ item : RoutingItemConfig,
    items[j]? = some item ∧ key ∈ item.hostRealms.getD []
  have hle : ∀ {j}, lists j → j ≤ items.length := fun ⟨_, h, _⟩ =>
    Nat.le_of_lt (List.getElem?_eq_some_iff.mp h).1
  have hj : lists j := ⟨item, hitem, hkey⟩
  refine ⟨Nat.findGreatest lists items.length, Nat.findGreatest_spec (hle hj) hj, ?_⟩
  intro j' item' hitem' hkey'
  have hj' : lists j' := ⟨item', hitem', hkey'⟩
  exact Nat.le_findGreatest (hle hj') hj'

/-- Both functions use the route that was made from item `i`. -/
structure UsesRouteOf (items : List RoutingItemConfig) (m : RoutingConnectionManager)
    (command : Command) (i : Nat) : Prop where
  selected : m.selected command = .item i
  connections : ∀ s,
    m.getConnectionsForCommand s command = m.connectionsOver s (m.selected command)
  send : ∀ outcome s,
    m.findSendCommand outcome s command = m.sendOver outcome s (m.selected command)
  route : ∃ item parsed rc, items[i]? = some item ∧
    RoutingConnection.new item.route = some parsed ∧ m.created[i]? = some rc ∧
      rc.shape = parsed.shape

section
variable {items : List RoutingItemConfig} {m : RoutingConnectionManager} {command : Command}
  {ops : List Op} {i : Nat}

theorem Built.usesRouteOf_iff (h : Built items m) :
    UsesRouteOf items (m.run ops) command i ↔
      LastListing items (m.key command) i ∧
        Matches items (m.key command) command.applicationId i := by
  have hshape : (m.run ops).shape = m.shape := shape_run
  have hselected : (m.run ops).selected command = .item i ↔ _ :=
    (selected_eq_item_of_shape hshape).trans h.selected_eq_item_iff
  constructor
  · intro huses
    exact hselected.mp huses.selected
  · intro hboth
    obtain ⟨item, hitem, -⟩ := hboth.1.1
    obtain ⟨parsed, hparsed, hnew⟩ := h.created i item hitem
    have hcreated := congrArg (fun s => s.2.2[i]?) hshape
    simp only [shape, List.getElem?_map, hparsed] at hcreated
    obtain ⟨rc, hrc, hrcshape⟩ := Option.map_eq_some_iff.mp hcreated
    exact ⟨hselected.mpr hboth, fun _ => getConnectionsForCommand_eq,
      fun _ _ => findSendCommand_eq, item, parsed, rc, hitem, hnew, hrc, hrcshape⟩

end

/-- **Which matching item is used.** Whatever connections came and went, a command for
which there is a matching item takes the route of a matching item exactly if the last
item that lists its key is one. -/
theorem usesRouteOf_matching_iff {stackRouting : StackRoutingConfig}
    {m : RoutingConnectionManager} (hnew : new stackRouting = some m)
    {items : List RoutingItemConfig} (hitems : stackRouting.items = some items)
    (ops : List Op) (command : Command) :
    ((∃ j, Matches items (m.key command) command.applicationId j) →
        ∃ i, Matches items (m.key command) command.applicationId i ∧
          UsesRouteOf items (m.run ops) command i) ↔
      ∀ i, LastListing items (m.key command) i →
        (∃ j, Matches items (m.key command) command.applicationId j) →
        Matches items (m.key command) command.applicationId i := by
  have hbuilt : Built items m := by
    have := built_new hnew
    rwa [hitems] at this
  constructor
  · intro h i hlast hmatch
    obtain ⟨i', hi', huses⟩ := h hmatch
    have heq : i' = i := (hbuilt.usesRouteOf_iff.mp huses).1.unique hlast
    exact heq ▸ hi'
  · intro h hmatch
    obtain ⟨j, item, hitem, hkey, -⟩ := id hmatch
    obtain ⟨i, hlast⟩ := exists_lastListing hitem hkey
    have hi := h i hlast hmatch
    exact ⟨i, hi, hbuilt.usesRouteOf_iff.mpr ⟨hlast, hi⟩⟩

/-! ### Two items for one realm -/

/-- Two items for `dest.com`, for different applications, both over the peer of the
realm. -/
def twoApplications (first second : UInt32) : List RoutingItemConfig :=
  [⟨some ["dest.com"], some [first], "gw@dest.com"⟩,
    ⟨some ["dest.com"], some [second], "gw@dest.com"⟩]

theorem exists_new_twoApplications (first second : UInt32) :
    ∃ m, new ⟨"realm", none, some (twoApplications first second)⟩ = some m ∧
      m.key requestForDest = "dest.com" ∧ m.defaultRoutingConnection = none := by
  obtain ⟨hparse, -⟩ := leafNames_of_single "gw@dest.com" "gw@dest.com".toList (by decide)
  obtain ⟨rc, hrc⟩ := Option.isSome_iff_exists.mp hparse
  have hadd : ∀ m item, item.route = "gw@dest.com" → ∃ m', addItem m item = some m' ∧
      m'.policy = m.policy ∧ m'.defaultRoutingConnection = m.defaultRoutingConnection := by
    intro m item heq
    unfold addItem
    rw [heq, hrc]
    exact ⟨_, rfl, rfl, rfl⟩
  have hrealm : requestForDest.getDestinationRealm = some "dest.com" :=
    Avp.asUtf8String_fromUtf8String AvpCode.destinationRealm.asU32 0x40 none "dest.com"
  obtain ⟨m₁, hm₁, hpolicy₁, hdefault₁⟩ := hadd
    { policy := (RoutingPolicy.fromStr "realm").getD .realm, created := []
      routingConnections := ∅, defaultRoutingConnection := none
      lt_length_created := fun _ _ h => by simp at h }
    ⟨some ["dest.com"], some [first], "gw@dest.com"⟩ rfl
  obtain ⟨m₂, hm₂, hpolicy₂, hdefault₂⟩ :=
    hadd m₁ ⟨some ["dest.com"], some [second], "gw@dest.com"⟩ rfl
  have hrealmPolicy : m₂.policy = .realm := hpolicy₂.trans (hpolicy₁.trans (by decide))
  refine ⟨m₂, ?_, ?_, hdefault₂.trans hdefault₁⟩
  · simp only [new, twoApplications, Option.getD_some, List.foldlM_cons, List.foldlM_nil]
    exact Option.bind_eq_some_iff.mpr ⟨m₁, hm₁, Option.bind_eq_some_iff.mpr ⟨m₂, hm₂, rfl⟩⟩
  · simp only [key, hrealm, hrealmPolicy, Option.getD_some]

theorem lastListing_twoApplications (first second : UInt32) :
    LastListing (twoApplications first second) "dest.com" 1 :=
  ⟨⟨_, rfl, List.mem_singleton_self _⟩, fun j item' hj _ => by
    have : j < 2 := (List.getElem?_eq_some_iff.mp hj).1
    omega⟩

/-- The later of the two items is used for its application. -/
theorem usesRouteOf_matching_iff_sample :
    ∃ m, new ⟨"realm", none, some (twoApplications 16777251 4)⟩ = some m ∧
      ∃ i, Matches (twoApplications 16777251 4) (m.key requestForDest) 4 i ∧
        UsesRouteOf (twoApplications 16777251 4) (m.run []) requestForDest i := by
  obtain ⟨m, hm, hkey, -⟩ := exists_new_twoApplications 16777251 4
  have hmatch : Matches (twoApplications 16777251 4) "dest.com" 4 1 :=
    ⟨_, rfl, List.mem_singleton_self _, fun ids hids => by
      rw [← Option.some.inj hids]
      exact List.mem_singleton_self _⟩
  refine ⟨m, hm, (usesRouteOf_matching_iff hm rfl [] requestForDest).mpr ?_ ⟨1, ?_⟩⟩
  · intro i hlast _
    rw [hkey] at hlast ⊢
    exact hlast.unique (lastListing_twoApplications 16777251 4) ▸ hmatch
  · rw [hkey]
    exact hmatch

/-- The earlier of the two is not: its application has no route. -/
theorem no_route_for_first_of_twoApplications :
    ∃ m, new ⟨"realm", none, some (twoApplications 4 16777251)⟩ = some m ∧
      Matches (twoApplications 4 16777251) (m.key requestForDest) requestForDest.applicationId 0 ∧
      m.selected requestForDest = .none ∧
      (∀ s, (m.getConnectionsForCommand s requestForDest).1 = []) ∧
      ∀ outcome s, (m.findSendCommand outcome s requestForDest).attempts = [] := by
  obtain ⟨m, hm, hkey, hdefault⟩ := exists_new_twoApplications 4 16777251
  have hbuilt : Built (twoApplications 4 16777251) m := built_new hm
  have hnone : m.selectedDefault = .none := by
    rw [selectedDefault, hdefault]
    rfl
  have hselected : m.selected requestForDest = .none := by
    rw [← hnone]
    cases hr : m.routingConnections.lookup (m.key requestForDest) with
    | none => exact selected_of_none hr
    | some r =>
      rw [selected_of_some hr, if_neg]
      intro happ
      obtain ⟨item, hitem, hlast, hids, -⟩ := (hbuilt.lookup _ r).mp hr
      rw [hkey] at hlast
      rw [hlast.unique (lastListing_twoApplications 4 16777251)] at hitem
      obtain rfl := Option.some.inj hitem
      have hmem := (containsAppId_iff hids).mp happ _ rfl
      exact absurd hmem (by decide)
  refine ⟨m, hm, ?_, hselected, fun s => ?_, fun outcome s => ?_⟩
  · rw [hkey]
    exact ⟨_, rfl, List.mem_singleton_self _, fun ids hids => by
      rw [← Option.some.inj hids]
      exact List.mem_singleton_self _⟩
  · rw [getConnectionsForCommand_eq, hselected]
    rfl
  · rw [findSendCommand_eq, hselected]
    rfl

end RoutingConnectionManager

end RestDiameterBridge
