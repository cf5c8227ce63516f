import RestDiameterBridge.Transport.RoutingTree

/-!
# RestDiameterBridge.Transport.RoutingReach

Which routes hand out a peer connection.

A route holds a leaf connection (`RoutingConnection.Holds`) if it sits in one of its
slots. Adding the connection puts it into the route of item `i` exactly if the realm or
the `host@realm` of the peer is a key whose last item is `i`, and one of the two is the
name of a slot of that route (`holds_addConnection`); adding and removing other
connections changes nothing (`holds_run`).

The result, `mem_getConnectionsForCommand_iff`: the key of the command does not enter
into whether the connection is there. The slots of a route are named by the leaves of its
expression, as they are written (`mem_leafNames_print`).
-/

namespace RestDiameterBridge

open Connection

namespace RoutingConnection

/-- The names of the slots. -/
def names (rc : RoutingConnection) : List String := rc.hostRealmConnections.keys

/-- What never changes after the expression was parsed. -/
def shape (rc : RoutingConnection) : Route × AList (fun _ : String => Nat) :=
  (rc.connection, rc.hostRealmConnections)

/-- A leaf connection sits in one of the slots. -/
def Holds (rc : RoutingConnection) (c : Handle) : Prop :=
  ∃ a ∈ rc.connection.slots, leaf c ∈ rc.members a

/-- No slot holds a container with that leaf in it. -/
def Plain (rc : RoutingConnection) (c : Handle) : Prop :=
  ∀ a, ∀ d ∈ rc.members a, leaf c ∈ d.leaves → d = leaf c

section
variable {rc : RoutingConnection} {c : Handle} {d : Connection}
  {f : List Connection → List Connection} {k : String}

@[simp] theorem shape_updateSlotAt : (rc.updateSlotAt k f).shape = rc.shape := by
  unfold updateSlotAt
  split <;> rfl

@[simp] theorem shape_updateSlotsOf : (rc.updateSlotsOf d f).shape = rc.shape := by
  rw [updateSlotsOf, shape_updateSlotAt, shape_updateSlotAt]

/-- The slot of a name holds what it held, updated; the others are unchanged. -/
theorem members_updateSlotAt (a : Nat) :
    (rc.updateSlotAt k f).members a =
      if rc.hostRealmConnections.lookup k = some a then f (rc.members a) else rc.members a := by
  unfold updateSlotAt
  split
  · rename_i b hb
    by_cases hab : a = b
    · subst hab
      simp [hb]
    · simp [hb, hab, Ne.symm hab]
  · rename_i hnone
    simp [hnone]

theorem slots_updateSlotAt : (rc.updateSlotAt k f).connection.slots = rc.connection.slots :=
  congrArg (·.1.slots) shape_updateSlotAt

theorem names_eq_of_shape {rc' : RoutingConnection} (h : rc'.shape = rc.shape) :
    rc'.names = rc.names :=
  congrArg (·.2.keys) h

theorem holds_updateSlotAt_append :
    (rc.updateSlotAt k (· ++ [d])).Holds c ↔ rc.Holds c ∨ d = leaf c ∧ k ∈ rc.names := by
  simp only [Holds, slots_updateSlotAt, members_updateSlotAt]
  constructor
  · intro hexists
    obtain ⟨a, ha, hmem⟩ := hexists
    by_cases hk : rc.hostRealmConnections.lookup k = some a
    · rw [if_pos hk, List.mem_append, List.mem_singleton] at hmem
      rcases hmem with hmem | rfl
      · exact .inl ⟨a, ha, hmem⟩
      · exact .inr ⟨rfl, AList.mem_keys.mp (AList.lookup_isSome.mp (by rw [hk]; rfl))⟩
    · rw [if_neg hk] at hmem
      exact .inl ⟨a, ha, hmem⟩
  · intro hor
    rcases hor with ⟨a, ha, hmem⟩ | ⟨rfl, hk⟩
    · refine ⟨a, ha, ?_⟩
      split
      · exact List.mem_append_left _ hmem
      · exact hmem
    · obtain ⟨a, ha⟩ := Option.isSome_iff_exists.mp
        (AList.lookup_isSome.mpr (AList.mem_keys.mpr hk))
      refine ⟨a, rc.slots_of_lookup k a ha, ?_⟩
      rw [if_pos ha]
      exact List.mem_append_right _ (List.mem_singleton_self _)

/-- A route takes a connection in exactly if it has a slot named after its peer. -/
theorem holds_addConnection :
    (rc.addConnection d).Holds c ↔
      rc.Holds c ∨ d = leaf c ∧ (d.peerKey ∈ rc.names ∨ d.self.peerRealm ∈ rc.names) := by
  rw [addConnection, updateSlotsOf, holds_updateSlotAt_append, holds_updateSlotAt_append,
    names_eq_of_shape shape_updateSlotAt, or_assoc, ← and_or_left]

theorem holds_updateSlotAt_filter {p : Connection → Bool} (hp : p (leaf c) = true) :
    (rc.updateSlotAt k (·.filter p)).Holds c ↔ rc.Holds c := by
  simp only [Holds, slots_updateSlotAt, members_updateSlotAt]
  refine exists_congr fun a => and_congr_right fun _ => ?_
  split
  · simp [List.mem_filter, hp]
  · rfl

/-- Taking another connection out leaves this one in. -/
theorem holds_removeConnection (hd : d.self.addr ≠ c.addr) :
    (rc.removeConnection d).Holds c ↔ rc.Holds c := by
  have hp : (decide ((leaf c).self.addr ≠ d.self.addr)) = true := decide_eq_true (Ne.symm hd)
  rw [removeConnection, updateSlotsOf, holds_updateSlotAt_filter hp, holds_updateSlotAt_filter hp]

theorem Plain.updateSlotAt (h : rc.Plain c)
    (hf : ∀ l, (∀ e ∈ l, leaf c ∈ e.leaves → e = leaf c) →
      ∀ e ∈ f l, leaf c ∈ e.leaves → e = leaf c) : (rc.updateSlotAt k f).Plain c := by
  intro a
  rw [members_updateSlotAt]
  split
  · exact hf _ (h a)
  · exact h a

theorem Plain.addConnection (h : rc.Plain c) (hd : leaf c ∈ d.leaves → d = leaf c) :
    (rc.addConnection d).Plain c := by
  have happend : ∀ l : List Connection, (∀ e ∈ l, leaf c ∈ e.leaves → e = leaf c) →
      ∀ e ∈ l ++ [d], leaf c ∈ e.leaves → e = leaf c := by
    intro l hl e he
    rcases List.mem_append.mp he with he | he
    · exact hl e he
    · rw [List.mem_singleton.mp he]
      exact hd
  exact (h.updateSlotAt happend).updateSlotAt happend

theorem Plain.removeConnection (h : rc.Plain c) : (rc.removeConnection d).Plain c := by
  have hfilter : ∀ l : List Connection, (∀ e ∈ l, leaf c ∈ e.leaves → e = leaf c) →
      ∀ e ∈ l.filter fun conn => conn.self.addr ≠ d.self.addr,
        leaf c ∈ e.leaves → e = leaf c :=
    fun l hl e he => hl e (List.mem_of_mem_filter he)
  exact (h.updateSlotAt hfilter).updateSlotAt hfilter

/-- What a route hands out, expanded to leaves, is what its slots hold. -/
theorem mem_leavesList_getConnections (s : Balancers) (h : rc.Plain c) :
    leaf c ∈ leavesList (rc.getConnections s).1 ↔ rc.Holds c := by
  have hleaves : leaf c ∈ leavesList (rc.getConnections s).1 ↔
      leaf c ∈ (rc.connection.toConnection rc.members).leaves := by
    rw [RoutingConnection.getConnections]
    cases hc : rc.connection.toConnection rc.members with
    | leaf self =>
      cases hr : rc.connection <;> rw [hr, Route.toConnection] at hc <;> cases hc
    | container kind self connections =>
      simp only [leavesList_eq_flatMap, leaves, List.mem_flatMap]
      exact exists_congr fun e =>
        and_congr_left' (getConnections_perm s kind self connections).mem_iff
  rw [hleaves, Route.mem_leaves_toConnection]
  refine exists_congr fun a => and_congr_right fun _ => ?_
  rw [leavesList_eq_flatMap, List.mem_flatMap]
  constructor
  · intro hexists
    obtain ⟨d, hd, hc⟩ := hexists
    rwa [h a d hd hc] at hd
  · intro hc
    exact ⟨leaf c, hc, List.mem_singleton_self _⟩

end

end RoutingConnection

namespace RoutingConnectionManager

/-- The created route a key leads to. -/
def routeOf (m : RoutingConnectionManager) (key : String) : Option Nat :=
  (m.routingConnections.lookup key).map (·.routingConnection)

/-- Route `i` holds a leaf connection. -/
def Holds (m : RoutingConnectionManager) (i : Nat) (c : Handle) : Prop :=
  ∃ rc, m.created[i]? = some rc ∧ rc.Holds c

/-- Route `i` has a slot of that name. -/
def HasSlot (m : RoutingConnectionManager) (i : Nat) (name : String) : Prop :=
  ∃ rc, m.created[i]? = some rc ∧ name ∈ rc.names

/-- No route holds a container with that leaf in it. -/
def Plain (m : RoutingConnectionManager) (c : Handle) : Prop :=
  ∀ (i : Nat) (rc : RoutingConnection), m.created[i]? = some rc → rc.Plain c

/-- What never changes after the configuration was read. -/
def shape (m : RoutingConnectionManager) :
    RoutingPolicy × (AList fun _ : String => RoutingItem) ×
      List (Route × AList fun _ : String => Nat) :=
  (m.policy, m.routingConnections, m.created.map RoutingConnection.shape)

section
variable {m m' : RoutingConnectionManager} {c : Handle} {d : Connection} {i : Nat}
  {key name : String} {f : RoutingConnection → RoutingConnection}

theorem routeOf_of_shape (h : m'.shape = m.shape) : m'.routeOf key = m.routeOf key :=
  congrArg (fun s => (s.2.1.lookup key).map (·.routingConnection)) h

theorem hasSlot_of_shape (h : m'.shape = m.shape) : m'.HasSlot i name ↔ m.HasSlot i name := by
  have hslot : ∀ m : RoutingConnectionManager, m.HasSlot i name ↔
      ∃ s, m.shape.2.2[i]? = some s ∧ name ∈ s.2.keys := by
    intro m
    simp only [HasSlot, shape, List.getElem?_map, Option.map_eq_some_iff]
    constructor
    · intro hexists
      obtain ⟨rc, hrc, hname⟩ := hexists
      exact ⟨_, ⟨rc, hrc, rfl⟩, hname⟩
    · intro hexists
      obtain ⟨_, ⟨rc, hrc, rfl⟩, hname⟩ := hexists
      exact ⟨rc, hrc, hname⟩
  rw [hslot, hslot, h]

theorem created_updateRouteAt :
    (m.updateRouteAt key f).created[i]? =
      if m.routeOf key = some i then m.created[i]?.map f else m.created[i]? := by
  unfold updateRouteAt routeOf
  split
  · rename_i item hitem
    simp only [hitem, Option.map_some, Option.some.injEq, List.getElem?_modify]
    split <;> simp
  · rename_i hnone
    simp [hnone]

theorem shape_updateRouteAt (hf : ∀ rc, (f rc).shape = rc.shape) :
    (m.updateRouteAt key f).shape = m.shape := by
  unfold updateRouteAt
  split
  · simp only [shape, Prod.mk.injEq, true_and]
    refine List.ext_getElem? fun i => ?_
    rw [List.getElem?_map, List.getElem?_map, List.getElem?_modify]
    split <;> simp [Function.comp_def, hf]
  · rfl

theorem shape_updateRoutesOf (hf : ∀ rc, (f rc).shape = rc.shape) :
    (m.updateRoutesOf d f).shape = m.shape :=
  (shape_updateRouteAt hf).trans (shape_updateRouteAt hf)

theorem holds_updateRouteAt_addConnection :
    (m.updateRouteAt key (·.addConnection d)).Holds i c ↔
      m.Holds i c ∨ d = leaf c ∧ m.routeOf key = some i ∧
        (m.HasSlot i d.peerKey ∨ m.HasSlot i d.self.peerRealm) := by
  simp only [Holds, HasSlot, created_updateRouteAt, ← exists_or, ← and_or_left]
  by_cases hkey : m.routeOf key = some i
  · simp only [hkey, if_true, true_and]
    cases hi : m.created[i]? with
    | none => simp
    | some rc => simp [RoutingConnection.holds_addConnection]
  · simp [hkey]

/-- A route takes a connection in exactly if the realm or the `host@realm` of the peer
leads to it and it has a slot named after the peer. -/
theorem holds_addConnection :
    (m.addConnection d).Holds i c ↔
      m.Holds i c ∨ d = leaf c ∧ (m.routeOf d.self.peerRealm = some i ∨ m.routeOf d.peerKey = some i) ∧
        (m.HasSlot i d.peerKey ∨ m.HasSlot i d.self.peerRealm) := by
  have hshape : (m.updateRouteAt d.self.peerRealm (·.addConnection d)).shape = m.shape :=
    shape_updateRouteAt fun _ => RoutingConnection.shape_updateSlotsOf
  show ((m.updateRouteAt d.self.peerRealm (·.addConnection d)).updateRouteAt d.peerKey
    (·.addConnection d)).Holds i c ↔ _
  rw [holds_updateRouteAt_addConnection, holds_updateRouteAt_addConnection,
    routeOf_of_shape hshape, hasSlot_of_shape hshape, hasSlot_of_shape hshape, or_assoc,
    ← and_or_left, ← or_and_right]

theorem holds_updateRouteAt (hf : ∀ rc : RoutingConnection, (f rc).Holds c ↔ rc.Holds c) :
    (m.updateRouteAt key f).Holds i c ↔ m.Holds i c := by
  simp only [Holds, created_updateRouteAt]
  split
  · cases m.created[i]? with
    | none => simp
    | some rc => simp [hf]
  · rfl

theorem Plain.updateRouteAt (h : m.Plain c)
    (hf : ∀ rc : RoutingConnection, rc.Plain c → (f rc).Plain c) :
    (m.updateRouteAt key f).Plain c := by
  intro i rc hrc
  rw [created_updateRouteAt] at hrc
  split at hrc
  · obtain ⟨rc', hrc', rfl⟩ := Option.map_eq_some_iff.mp hrc
    exact hf rc' (h i rc' hrc')
  · exact h i rc hrc

end

/-- Connections coming and going. -/
inductive Op
  | add (d : Connection)
  | remove (d : Connection)

/-- One of them. -/
def apply (m : RoutingConnectionManager) : Op → RoutingConnectionManager
  | .add d => m.addConnection d
  | .remove d => m.removeConnection d

/-- A sequence of them. -/
def run (m : RoutingConnectionManager) (ops : List Op) : RoutingConnectionManager :=
  ops.foldl apply m

/-- An addition or removal of other connections than the leaf `c`. -/
def Op.Avoids (c : Handle) : Op → Prop
  | .add d => leaf c ∉ d.leaves
  | .remove d => d.self.addr ≠ c.addr

section
variable {m : RoutingConnectionManager} {c : Handle} {i : Nat} {op : Op} {ops : List Op}

theorem shape_apply : (m.apply op).shape = m.shape := by
  cases op with
  | add d => exact shape_updateRoutesOf fun _ => RoutingConnection.shape_updateSlotsOf
  | remove d => exact shape_updateRoutesOf fun _ => RoutingConnection.shape_updateSlotsOf

theorem shape_run : (m.run ops).shape = m.shape := by
  induction ops generalizing m with
  | nil => rfl
  | cons op ops ih => exact ih.trans shape_apply

theorem holds_apply (h : op.Avoids c) : (m.apply op).Holds i c ↔ m.Holds i c := by
  cases op with
  | add d =>
    have hne : d ≠ leaf c := fun heq => h (by rw [heq]; exact List.mem_singleton_self _)
    simp only [apply, holds_addConnection, hne, false_and, or_false]
  | remove d =>
    have hrc : ∀ rc : RoutingConnection, (rc.removeConnection d).Holds c ↔ rc.Holds c :=
      fun rc => RoutingConnection.holds_removeConnection h
    exact (holds_updateRouteAt hrc).trans (holds_updateRouteAt hrc)

theorem holds_run (h : ∀ op ∈ ops, op.Avoids c) : (m.run ops).Holds i c ↔ m.Holds i c := by
  induction ops generalizing m with
  | nil => rfl
  | cons op ops ih =>
    exact (ih fun o ho => h o (List.mem_cons_of_mem _ ho)).trans
      (holds_apply (h op List.mem_cons_self))

theorem Plain.apply (hm : m.Plain c)
    (h : ∀ d, op = .add d → leaf c ∈ d.leaves → d = leaf c) : (m.apply op).Plain c := by
  cases op with
  | add d =>
    have hrc : ∀ rc : RoutingConnection, rc.Plain c → (rc.addConnection d).Plain c :=
      fun rc hrc => hrc.addConnection (h d rfl)
    exact (hm.updateRouteAt hrc).updateRouteAt hrc
  | remove d =>
    have hrc : ∀ rc : RoutingConnection, rc.Plain c → (rc.removeConnection d).Plain c :=
      fun rc hrc => hrc.removeConnection
    exact (hm.updateRouteAt hrc).updateRouteAt hrc

theorem Plain.run (hm : m.Plain c) (h : ∀ op ∈ ops, op.Avoids c) : (m.run ops).Plain c := by
  induction ops generalizing m with
  | nil => exact hm
  | cons op ops ih =>
    refine ih (hm.apply ?_) fun o ho => h o (List.mem_cons_of_mem _ ho)
    intro d heq hd
    subst heq
    exact absurd hd (h (.add d) List.mem_cons_self)

end

/-! ### The manager of a configuration -/

/-- The last of the items that lists the key. -/
def LastListing (items : List RoutingItemConfig) (key : String) (i : Nat) : Prop :=
  (∃ item, items[i]? = some item ∧ key ∈ item.hostRealms.getD []) ∧
    ∀ j item, items[j]? = some item → key ∈ item.hostRealms.getD [] → j ≤ i

/-- The slot names of a route expression. -/
def leafNames (route : String) : List String :=
  match RoutingConnection.new route with
  | some rc => rc.names
  | none => []

/-- The manager after the first items of the configuration. -/
structure Built (items : List RoutingItemConfig) (m : RoutingConnectionManager) : Prop where
  length : m.created.length = items.length
  created : ∀ (i : Nat) item, items[i]? = some item →
    ∃ rc, m.created[i]? = some rc ∧ RoutingConnection.new item.route = some rc
  lookup : ∀ key r, m.routingConnections.lookup key = some r ↔
    ∃ item, items[r.routingConnection]? = some item ∧ LastListing items key r.routingConnection ∧
      r.applicationIds = item.applicationIds ∧ r.hostRealms = item.hostRealms

theorem lastListing_concat {items : List RoutingItemConfig} {item : RoutingItemConfig}
    {key : String} {i : Nat} :
    LastListing (items ++ [item]) key i ↔
      if key ∈ item.hostRealms.getD [] then i = items.length else LastListing items key i := by
  by_cases hkey : key ∈ item.hostRealms.getD []
  · rw [if_pos hkey]
    constructor
    · intro hboth
      obtain ⟨⟨item', hi, -⟩, hlast⟩ := hboth
      have hlt := (List.getElem?_eq_some_iff.mp hi).1
      have hle := hlast items.length item (by simp) hkey
      rw [List.length_append, List.length_singleton] at hlt
      omega
    · intro heq
      subst heq
      refine ⟨⟨item, by simp, hkey⟩, fun j item' hj _ => ?_⟩
      have hlt := (List.getElem?_eq_some_iff.mp hj).1
      rw [List.length_append, List.length_singleton] at hlt
      omega
  -- the new item does not list the key, so only the old ones matter
  · have hold : ∀ (j : Nat) item', key ∈ item'.hostRealms.getD [] →
        ((items ++ [item])[j]? = some item' ↔ items[j]? = some item') := by
      intro j item' hkey'
      rcases Nat.lt_or_ge j items.length with hlt | hge
      · rw [List.getElem?_append_left hlt]
      · rw [List.getElem?_append_right hge, List.getElem?_eq_none hge]
        refine iff_of_false (fun h => hkey ?_) (by simp)
        rwa [← List.mem_singleton.mp (List.mem_of_getElem? h)]
    rw [if_neg hkey]
    constructor
    · intro hboth
      obtain ⟨⟨item', hi, hkey'⟩, hlast⟩ := hboth
      exact ⟨⟨item', (hold i item' hkey').mp hi, hkey'⟩,
        fun j it hj hk => hlast j it ((hold j it hk).mpr hj) hk⟩
    · intro hboth
      obtain ⟨⟨item', hi, hkey'⟩, hlast⟩ := hboth
      exact ⟨⟨item', (hold i item' hkey').mpr hi, hkey'⟩,
        fun j it hj hk => hlast j it ((hold j it hk).mp hj) hk⟩

theorem Built.addItem {items : List RoutingItemConfig} {item : RoutingItemConfig}
    {m m' : RoutingConnectionManager} (h : Built items m) (hadd : m.addItem item = some m') :
    Built (items ++ [item]) m' := by
  obtain ⟨conn, hconn, rfl⟩ := Option.map_eq_some_iff.mp hadd
  refine ⟨by simp [h.length], ?_, ?_⟩
  · intro i item' hi
    rcases Nat.lt_or_ge i items.length with hlt | hge
    · rw [List.getElem?_append_left hlt] at hi
      obtain ⟨rc, hrc, hnew⟩ := h.created i item' hi
      exact ⟨rc, by rw [List.getElem?_append_left (h.length ▸ hlt), hrc], hnew⟩
    · rw [List.getElem?_append_right hge] at hi
      obtain ⟨hzero, hitem⟩ := List.getElem?_eq_some_iff.mp hi
      have hi' : i = items.length := by simp at hzero; omega
      have hitem' : item = item' := by simpa [hi'] using hitem
      exact ⟨conn, by simp [hi', h.length], hitem' ▸ hconn⟩
  · intro key r
    rw [lookup_insertAll, lastListing_concat]
    -- the new item's keys now lead to it, all others where they did
    by_cases hkey : key ∈ item.hostRealms.getD []
    · simp only [hkey, if_true, Option.some.injEq]
      constructor
      · intro heq
        subst heq
        exact ⟨item, by simp [h.length], h.length, rfl, rfl⟩
      · intro hexists
        obtain ⟨item', hi, hidx, happ, hhr⟩ := hexists
        rw [hidx, List.getElem?_concat_length] at hi
        obtain rfl := Option.some.inj hi
        cases r
        simp_all [h.length]
    · simp only [hkey, if_false]
      rw [h.lookup]
      refine exists_congr fun item' => and_congr_left fun hr => ?_
      obtain ⟨⟨_, hi, _⟩, _⟩ := hr.1
      rw [List.getElem?_append_left (List.getElem?_eq_some_iff.mp hi).1]

theorem built_foldlM (done : List RoutingItemConfig) {items : List RoutingItemConfig}
    {m m' : RoutingConnectionManager} (h : Built done m) (hfold : items.foldlM addItem m = some m') :
    Built (done ++ items) m' := by
  induction items generalizing done m with
  | nil =>
    obtain rfl := Option.some.inj hfold
    rwa [List.append_nil]
  | cons item items ih =>
    rw [List.foldlM_cons] at hfold
    obtain ⟨m₁, hadd, hfold⟩ := Option.bind_eq_some_iff.mp hfold
    rw [List.append_cons]
    exact ih _ (h.addItem hadd) hfold

/-- The manager of a configuration has one route for each item, and each key leads to
the last item that lists it. -/
theorem built_new {stackRouting : StackRoutingConfig} {m : RoutingConnectionManager}
    (h : new stackRouting = some m) : Built (stackRouting.items.getD []) m := by
  unfold new at h
  split at h
  · cases h
  · refine built_foldlM [] ⟨rfl, by simp, ?_⟩ h
    intro key r
    simp

theorem members_new {config : String} {rc : RoutingConnection}
    (h : RoutingConnection.new config = some rc) (a : Nat) : rc.members a = [] := by
  unfold RoutingConnection.new at h
  split at h
  · cases h
  · rw [← Option.some.inj h]

section
variable {items : List RoutingItemConfig} {m : RoutingConnectionManager} {c : Handle} {i : Nat}
  {item : RoutingItemConfig} {key name : String}

theorem Built.members_created (h : Built items m) {rc : RoutingConnection}
    (hrc : m.created[i]? = some rc) (a : Nat) : rc.members a = [] := by
  have hi : i < items.length := h.length ▸ (List.getElem?_eq_some_iff.mp hrc).1
  obtain ⟨rc', hrc', hnew⟩ := h.created i items[i] (List.getElem?_eq_getElem hi)
  obtain rfl := Option.some.inj (hrc.symm.trans hrc')
  exact members_new hnew a

theorem Built.plain (h : Built items m) : m.Plain c := by
  intro i rc hrc a d hd
  rw [h.members_created hrc a] at hd
  cases hd

theorem Built.not_holds (h : Built items m) : ¬m.Holds i c := by
  intro hexists
  obtain ⟨rc, hrc, a, -, hc⟩ := hexists
  rw [h.members_created hrc a] at hc
  cases hc

theorem Built.routeOf_eq (h : Built items m) :
    m.routeOf key = some i ↔ LastListing items key i := by
  rw [routeOf, Option.map_eq_some_iff]
  constructor
  · intro hexists
    obtain ⟨r, hr, rfl⟩ := hexists
    obtain ⟨_, _, hlast, _⟩ := (h.lookup key r).mp hr
    exact hlast
  · intro hlast
    obtain ⟨item, hi, -⟩ := hlast.1
    exact ⟨⟨item.applicationIds, item.hostRealms, i⟩,
      (h.lookup key _).mpr ⟨item, hi, hlast, rfl, rfl⟩, rfl⟩

theorem Built.hasSlot_iff (h : Built items m) (hi : items[i]? = some item) :
    m.HasSlot i name ↔ name ∈ leafNames item.route := by
  obtain ⟨rc, hrc, hnew⟩ := h.created i item hi
  simp only [HasSlot, hrc, Option.some.injEq, exists_eq_left', leafNames, hnew]

/-- A command whose key leads to a route that admits its application is handed what that
route holds. -/
theorem mem_getConnectionsForCommand {command : Command} {r : RoutingItem} (hplain : m.Plain c)
    (hr : m.routingConnections.lookup (m.key command) = some r)
    (happ : r.containsAppId command.applicationId = true) (s : Balancers) :
    leaf c ∈ leavesList (m.getConnectionsForCommand s command).1 ↔
      m.Holds r.routingConnection c := by
  have hlt := m.lt_length_created _ _ hr
  have hcreated : m.created[r.routingConnection]? = some m.created[r.routingConnection] :=
    List.getElem?_eq_getElem hlt
  unfold getConnectionsForCommand
  split
  · rename_i r' hr'
    obtain rfl := Option.some.inj (hr.symm.trans hr')
    rw [if_pos happ]
    refine (RoutingConnection.mem_leavesList_getConnections s (hplain _ _ hcreated)).trans ?_
    simp [Holds, hcreated]
  · rename_i hnone
    rw [hr] at hnone
    cases hnone

end

section
variable {items : List RoutingItemConfig} {m : RoutingConnectionManager} {c : Handle} {i : Nat}
  {item : RoutingItemConfig} {before after : List Op} {command : Command}

theorem run_add : m.run (before ++ .add (leaf c) :: after) =
    ((m.run before).apply (.add (leaf c))).run after := by
  rw [run, List.foldl_append]
  rfl

/-- Whatever other connections come and go, `c` is in route `i` once it was added exactly
if its own identity leads there and names a slot of the route. -/
theorem Built.holds_run_add (h : Built items m) (hi : items[i]? = some item)
    (hbefore : ∀ op ∈ before, op.Avoids c) (hafter : ∀ op ∈ after, op.Avoids c) :
    (m.run (before ++ .add (leaf c) :: after)).Holds i c ↔
      (LastListing items c.peerRealm i ∨ LastListing items (hostRealm c.peerHost c.peerRealm) i) ∧
        (hostRealm c.peerHost c.peerRealm ∈ leafNames item.route ∨
          c.peerRealm ∈ leafNames item.route) := by
  have hbase : (m.run before).shape = m.shape := shape_run
  rw [run_add, holds_run hafter]
  simp only [apply, holds_addConnection, holds_run hbefore, h.not_holds, false_or,
    true_and, routeOf_of_shape hbase, hasSlot_of_shape hbase, h.routeOf_eq, h.hasSlot_iff hi]
  rfl

/-- A command whose key leads to item `i`, which admits its application, is handed what
route `i` holds. -/
theorem Built.mem_getConnectionsForCommand_run (h : Built items m) (hi : items[i]? = some item)
    (hbefore : ∀ op ∈ before, op.Avoids c) (hafter : ∀ op ∈ after, op.Avoids c)
    (hlast : LastListing items (m.key command) i)
    (happ : ∀ ids, item.applicationIds = some ids → command.applicationId ∈ ids)
    (s : Balancers) :
    leaf c ∈ leavesList
        ((m.run (before ++ .add (leaf c) :: after)).getConnectionsForCommand s command).1 ↔
      (m.run (before ++ .add (leaf c) :: after)).Holds i c := by
  have hshape : (m.run (before ++ .add (leaf c) :: after)).shape = m.shape := shape_run
  have hplain : (m.run (before ++ .add (leaf c) :: after)).Plain c := by
    rw [run_add]
    refine ((h.plain.run hbefore).apply ?_).run hafter
    intro d heq _
    exact (Op.add.inj heq).symm
  have hkey : (m.run (before ++ .add (leaf c) :: after)).key command = m.key command := by
    have hpolicy : (m.run (before ++ .add (leaf c) :: after)).policy = m.policy :=
      congrArg (·.1) hshape
    simp only [key, hpolicy]
  -- operations change neither the policy nor the items, only who is in their routes
  let r : RoutingItem := ⟨item.applicationIds, item.hostRealms, i⟩
  have hr : (m.run (before ++ .add (leaf c) :: after)).routingConnections.lookup
      ((m.run (before ++ .add (leaf c) :: after)).key command) = some r := by
    have hlookup := congrArg (fun s => s.2.1.lookup (m.key command)) hshape
    rw [hkey]
    exact hlookup.trans ((h.lookup _ r).mpr ⟨item, hi, hlast, rfl, rfl⟩)
  have happ' : r.containsAppId command.applicationId = true := by
    unfold RoutingItem.containsAppId
    split
    · rfl
    · rename_i ids hids
      exact List.contains_iff_mem.mpr (happ ids hids)
  exact mem_getConnectionsForCommand hplain hr happ' s

end

/-- **What a peer connection is handed out for.** Once `c` was added, whatever other
connections come and go, a command whose key only item `i` lists and whose application
that item admits reaches `c` exactly if the realm or the `host@realm` of the *peer* is a
key whose last item is `i`, and one of the two is, letter for letter, a slot name of the
route. -/
theorem mem_getConnectionsForCommand_iff {stackRouting : StackRoutingConfig}
    {m : RoutingConnectionManager} (hnew : new stackRouting = some m)
    {items : List RoutingItemConfig} (hitems : stackRouting.items = some items) (i : Nat)
    {item : RoutingItemConfig} (hi : items[i]? = some item) (c : Handle) (before after : List Op)
    (hbefore : ∀ op ∈ before, op.Avoids c) (hafter : ∀ op ∈ after, op.Avoids c)
    (command : Command) (hkey : m.key command ∈ item.hostRealms.getD [])
    (honly : ∀ j item', items[j]? = some item' →
      m.key command ∈ item'.hostRealms.getD [] → j = i)
    (happ : ∀ ids, item.applicationIds = some ids → command.applicationId ∈ ids)
    (s : Balancers) :
    leaf c ∈ leavesList
        ((m.run (before ++ .add (leaf c) :: after)).getConnectionsForCommand s command).1 ↔
      (LastListing items c.peerRealm i ∨ LastListing items (hostRealm c.peerHost c.peerRealm) i) ∧
        (hostRealm c.peerHost c.peerRealm ∈ leafNames item.route ∨
          c.peerRealm ∈ leafNames item.route) := by
  have hbuilt : Built items m := by
    have := built_new hnew
    rwa [hitems] at this
  have hlast : LastListing items (m.key command) i :=
    ⟨⟨item, hi, hkey⟩, fun j item' hj hk => Nat.le_of_eq (honly j item' hj hk)⟩
  rw [hbuilt.mem_getConnectionsForCommand_run hi hbefore hafter hlast happ s,
    hbuilt.holds_run_add hi hbefore hafter]

/-! ### A gateway in another realm -/

/-- One slot for a single name. -/
theorem leafNames_of_single (config : String) (v : List Char)
    (h : LoadBalancerStrategy.fromStr config.toList = some (some (.value [v]))) :
    (RoutingConnection.new config).isSome ∧ leafNames config = [String.ofList v] := by
  have hcreate := createConnectionFrom_of_single (b := { nextAddr := 1, slots := ∅ }) h rfl
  obtain ⟨rc, hrc, hnames⟩ : ∃ rc, RoutingConnection.new config = some rc ∧
      rc.names = [String.ofList v] := by
    unfold RoutingConnection.new
    split
    · rename_i hnone
      rw [hcreate] at hnone
      cases hnone
    · rename_i hsome
      rw [hcreate] at hsome
      cases hsome
      exact ⟨_, rfl, rfl⟩
  rw [leafNames, hrc]
  exact ⟨rfl, hnames⟩

theorem mem_fileAll {slots : AList fun _ : String => Nat} {entries : List (String × Nat)}
    {name : String} : name ∈ StrategyTree.fileAll slots entries ↔
      name ∈ slots ∨ name ∈ entries.map Prod.fst := by
  induction entries generalizing slots with
  | nil => simp [StrategyTree.fileAll]
  | cons entry entries ih =>
    have hcons : StrategyTree.fileAll slots (entry :: entries) =
        StrategyTree.fileAll (slots.insert entry.1 entry.2) entries := rfl
    rw [hcons, ih, AList.mem_insert, List.map_cons, List.mem_cons, or_comm (a := name = entry.1),
      or_assoc]

/-- **The slots are named by the leaves**: those of the expression as it is written, with the
keywords in any letter case. -/
theorem mem_leafNames_print (t : StrategyTree) {text name : String}
    (htext : toLowercase text.toList = t.print) :
    name ∈ leafNames text ↔ name ∈ t.leaves := by
  obtain ⟨route, b, hcreate, hbuilds⟩ :=
    StrategyTree.createConnectionFrom_print t htext { nextAddr := 1, slots := ∅ }
  obtain ⟨entries, hnames, -, hslots⟩ := hbuilds.filed
  have hleaves : entries.map Prod.fst = t.leaves := by
    rw [hnames]
    simp [StrategyTree.leavesList]
  obtain ⟨rc, hrc, hfiled⟩ : ∃ rc, RoutingConnection.new text = some rc ∧
      rc.hostRealmConnections = b.slots := by
    unfold RoutingConnection.new
    split
    · rename_i hnone
      rw [hcreate] at hnone
      cases hnone
    · rename_i hsome
      rw [hcreate] at hsome
      cases hsome
      exact ⟨_, rfl, rfl⟩
  rw [leafNames, hrc, ← hleaves]
  show name ∈ rc.hostRealmConnections ↔ _
  rw [hfiled, hslots, mem_fileAll]
  simp

/-- Requests for `dest.com` go to the given peer. -/
def gatewayRouting (route : String) : StackRoutingConfig :=
  { policy := "realm", default := none
    items := some [{ hostRealms := some ["dest.com"], applicationIds := none, route }] }

/-- A request for `dest.com`. -/
def requestForDest : Command :=
  { code := 272, flags := 0xC0, applicationId := 4, hopByHopId := 1, endToEndId := 1
    avps := [Avp.fromUtf8String AvpCode.destinationRealm.asU32 0x40 none "dest.com"] }

theorem exists_new_gatewayRouting {route : String} (h : (RoutingConnection.new route).isSome) :
    ∃ m, new (gatewayRouting route) = some m ∧ m.key requestForDest = "dest.com" := by
  obtain ⟨rc, hrc⟩ := Option.isSome_iff_exists.mp h
  have hrealm : requestForDest.getDestinationRealm = some "dest.com" :=
    Avp.asUtf8String_fromUtf8String AvpCode.destinationRealm.asU32 0x40 none "dest.com"
  have hadd : ∀ m item, item.route = route → ∃ m', addItem m item = some m' ∧
      m'.policy = m.policy := by
    intro m item heq
    subst heq
    unfold addItem
    rw [hrc]
    exact ⟨_, rfl, rfl⟩
  obtain ⟨m, hm, hpolicy⟩ := hadd _ ⟨some ["dest.com"], none, route⟩ rfl
  refine ⟨m, ?_, ?_⟩
  · simp only [new, gatewayRouting, Option.getD_some, List.foldlM_cons, List.foldlM_nil]
    exact Option.bind_eq_some_iff.mpr ⟨m, hm, rfl⟩
  · have : m.policy = .realm := hpolicy.trans (by decide)
    simp only [key, hrealm, this, Option.getD_some]

/-- Only the destination realm itself leads to the only item. -/
theorem lastListing_gateway {route key : String} :
    LastListing [⟨some ["dest.com"], none, route⟩] key 0 ↔ key = "dest.com" := by
  constructor
  · intro hboth
    obtain ⟨⟨item, hi, hkey⟩, -⟩ := hboth
    obtain rfl := Option.some.inj hi
    exact List.mem_singleton.mp hkey
  · intro heq
    subst heq
    refine ⟨⟨_, rfl, List.mem_singleton_self _⟩, fun j item' hj _ => ?_⟩
    have : j < 1 := (List.getElem?_eq_some_iff.mp hj).1
    omega

/-- A peer of the destination's own realm is handed out. -/
theorem mem_getConnectionsForCommand_iff_sample :
    ∃ m, new (gatewayRouting "gw@dest.com") = some m ∧ ∀ s,
      leaf ⟨7, "gw:3868", "gw", "dest.com"⟩ ∈ leavesList
        ((m.run [.add (leaf ⟨7, "gw:3868", "gw", "dest.com"⟩)]).getConnectionsForCommand s
          requestForDest).1 := by
  obtain ⟨hparse, hleaf⟩ := leafNames_of_single "gw@dest.com" "gw@dest.com".toList (by decide)
  obtain ⟨m, hm, hkey⟩ := exists_new_gatewayRouting hparse
  refine ⟨m, hm, fun s => ?_⟩
  refine (mem_getConnectionsForCommand_iff hm rfl 0 rfl ⟨7, "gw:3868", "gw", "dest.com"⟩ [] []
    (by simp) (by simp) requestForDest (by rw [hkey]; simp) ?_ (by simp) s).mpr ?_
  · intro j item' hj _
    have : j < 1 := (List.getElem?_eq_some_iff.mp hj).1
    omega
  · exact ⟨.inl (lastListing_gateway.mpr rfl), .inl (by rw [hleaf]; decide)⟩

/-- The gateway `gw@other.com` is written in the route of the only item for `dest.com`,
yet a request for `dest.com` never reaches it. -/
theorem not_mem_getConnectionsForCommand_gateway :
    ∃ m, new (gatewayRouting "gw@other.com") = some m ∧
      "gw@other.com" ∈ leafNames "gw@other.com" ∧ m.key requestForDest = "dest.com" ∧ ∀ s,
      leaf ⟨7, "gw:3868", "gw", "other.com"⟩ ∉ leavesList
        ((m.run [.add (leaf ⟨7, "gw:3868", "gw", "other.com"⟩)]).getConnectionsForCommand s
          requestForDest).1 := by
  obtain ⟨hparse, hleaf⟩ := leafNames_of_single "gw@other.com" "gw@other.com".toList (by decide)
  obtain ⟨m, hm, hkey⟩ := exists_new_gatewayRouting hparse
  refine ⟨m, hm, by rw [hleaf]; decide, hkey, fun s hmem => ?_⟩
  have hbuilt : Built [⟨some ["dest.com"], none, "gw@other.com"⟩] m := built_new hm
  rw [show [Op.add (leaf ⟨7, "gw:3868", "gw", "other.com"⟩)] =
      [] ++ Op.add (leaf ⟨7, "gw:3868", "gw", "other.com"⟩) :: [] from rfl,
    hbuilt.mem_getConnectionsForCommand_run rfl (by simp) (by simp)
      (lastListing_gateway.mpr hkey) (by simp),
    hbuilt.holds_run_add rfl (by simp) (by simp)] at hmem
  rcases hmem.1 with hrealm | hrealm <;> exact absurd (lastListing_gateway.mp hrealm) (by decide)

end RoutingConnectionManager

end RestDiameterBridge
