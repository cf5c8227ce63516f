import Mathlib.Algebra.BigOperators.Group.List.Basic
import RestDiameterBridge.Transport.LoopDetection

/-!
# RestDiameterBridge.Transport.RelayChain

A request and its answer through any number of bridges, there and back.

`Network.Relays` is one node's part: a peer's request that it sends on, and the answer to it
that it sends back, with whatever the node does in between to other ids. `Network.Chain`
lines nodes up, each reading what the one before it has sent. `relay_chain` compares the
bytes at both ends: on the way there the request gets the Route-Records of the nodes in
order, and nothing else that stays; on the way back the answer loses those, and comes out
under the id of the request.
-/

namespace RestDiameterBridge

open Program

namespace HopByHopIdMapper

/-- What happens to the id map for other requests, up to a time limit. -/
inductive Elsewhere (id : UInt32) (limit : Nat) : HopByHopIdMapper → HopByHopIdMapper → Prop
  | refl (m : HopByHopIdMapper) : Elsewhere id limit m m
  | cleanUpDue {m m' : HopByHopIdMapper} {now : Nat} :
      Elsewhere id limit m m' → Elsewhere id limit m (m'.cleanUpDue now).2
  | dropExpired {m m' : HopByHopIdMapper} {now : Nat} :
      Elsewhere id limit m m' → now ≤ limit → Elsewhere id limit m (m'.dropExpired now)
  | insertMapping {m m' : HopByHopIdMapper} {newId original : UInt32} {now : Nat} :
      Elsewhere id limit m m' → newId ≠ id → Elsewhere id limit m (m'.insertMapping now newId original)
  | removeMapping {m m' : HopByHopIdMapper} {newId : UInt32} {now : Nat} :
      Elsewhere id limit m m' → newId ≠ id → Elsewhere id limit m (m'.removeMapping now newId).2

/-- A mapping outlives what happens to other ids. -/
theorem Elsewhere.maps {m m' : HopByHopIdMapper} {id original : UInt32} {limit : Nat}
    (h : Elsewhere id limit m m') (hm : m.Maps id original limit) : m'.Maps id original limit := by
  induction h with
  | refl => exact hm
  | cleanUpDue _ ih => exact ih.cleanUpDue
  | dropExpired _ hnow ih => exact ih.dropExpired hnow
  | insertMapping _ hne ih => exact ih.insertMapping (Ne.symm hne)
  | removeMapping _ hne ih => exact ih.removeMapping (Ne.symm hne)

end HopByHopIdMapper

/-! ### The request at one node -/

/-- Calls that give a request its id. -/
def Call.Numbers : Call → Prop
  | nextId | addMapping .. => True
  | _ => False

section
variable {ctx : CommandProcessorContext} {transport : Transport} {c request : Command}
  {trace : List Event} {p : Point} {id original : UInt32} {deadline : Nat} {conn : Connection}
  {sent : Option (Except String Unit)}

/-- A request that is being sent, or given up, has its id. -/
theorem Sending.not_numbers {reply : Option Command} {info : Option Nat} {answered : Bool}
    (h : Sending ctx request reply info answered trace p) : ∀ e ∈ trace, ¬e.1.Numbers := by
  have hsends : ∀ c : Call, c.Sends request → ¬c.Numbers := by
    intro c hc hnumbers
    cases c <;> first | exact hc | exact hnumbers
  cases h with
  | goesOn hcalls => exact fun e he => hsends e.1 (hcalls.calls e he)
  | givenUp _ hcalls hafter =>
    intro e he
    rcases List.mem_append.mp he with he | he
    · exact hsends e.1 (hcalls.calls e he)
    · have hresponds := (responded_byId hafter).calls e he
      intro hnumbers
      obtain ⟨c, r⟩ := e
      cases c <;> first | exact hresponds | exact hnumbers

/-- A forwarded request is given one id. -/
theorem ForwardEvent.numbers {e : Event} (h : ForwardEvent ctx c id trace p e)
    (hnumbers : e.1.Numbers) : e = ⟨.nextId, id⟩ ∨ e = ⟨.addMapping id c.hopByHopId, ()⟩ := by
  cases h with
  | draw => exact .inl rfl
  | cleanUp hclean =>
    obtain ⟨call, r⟩ := e
    cases call <;> first | exact hclean.elim | exact hnumbers.elim
  | addMapping => exact .inr rfl
  | prepare => exact hnumbers.elim
  | sending hsending he => exact absurd hnumbers (hsending.not_numbers e he)

/-- The id under which a request goes out is the one that leads back to its own id. -/
theorem forwarded_of_addMapping (htransport : transport ≠ .rest)
    (h : Path (Course ctx) (.start ctx transport c) trace p)
    (hmapping : ⟨.addMapping id original, ()⟩ ∈ trace)
    (hsent : ⟨.sendWithin deadline conn request, sent⟩ ∈ trace) :
    original = c.hopByHopId ∧ request = c.forwarded ctx.myHost id := by
  obtain ⟨hrequest, happlication, hlooped, hmine, id', hdraw, rfl⟩ :=
    forwarded_of_mem htransport h hsent
  unfold Point.start at h
  rw [if_neg htransport, if_neg (by simp [happlication.1, happlication.2]), if_neg (by simp [hlooped]),
    if_pos hrequest] at h
  obtain ⟨id'', hevents⟩ := (path_request hmine h).events
  obtain rfl : id' = id'' := (hevents _ hdraw).2.drawn
  rcases (hevents _ hmapping).2.numbers trivial with heq | heq
  · cases heq
  · cases heq
    exact ⟨rfl, rfl⟩

end

/-! ### From one end to the other -/

/-- The request behind some hosts, under the id of the last of them. -/
def Message.through (m : Message) (hosts : List String) (id : UInt32) : Message :=
  { m with hopByHopId := id, avps := m.avps ++ hosts.map WireAvp.routeRecord }

/-- The room that the Route-Records of some hosts take. -/
def recordsLength (hosts : List String) : Nat :=
  (hosts.map fun host => (WireAvp.routeRecord host).bytes.length).sum

/-- The answer on the other side of some hosts. -/
def Message.back (s : Message) (hosts : List String) (id : UInt32) : Message :=
  s.restored id fun a => hosts.any fun host => a.names host

section
variable {m s : Message} {host : String} {hosts : List String} {id id' : UInt32}

theorem through_forwarded :
    (m.forwarded host id).through hosts id' = m.through (host :: hosts) id' := by
  simp [Message.through, Message.forwarded]

theorem length_through : (m.through hosts id).length = m.length + recordsLength hosts := by
  have hrecords : (hosts.map WireAvp.routeRecord).flatMap WireAvp.bytes =
      hosts.flatMap fun host => (WireAvp.routeRecord host).bytes := by
    rw [List.flatMap_map]
  simp only [Message.length, Message.body, Message.through, List.flatMap_append, hrecords,
    List.length_append, List.length_flatMap, recordsLength]
  omega

theorem restored_back :
    (s.back hosts id).restored id' (WireAvp.names host) = s.back (host :: hosts) id' := by
  simp only [Message.back, Message.restored, List.filter_filter, List.any_cons, Bool.not_or]

theorem hasRecordRoute_command :
    m.command.hasRecordRoute host = m.avps.any fun a => a.names host := by
  rw [Command.hasRecordRoute, Message.command, List.any_map]
  congr 1
  funext a
  exact isRecordRoute_toAvp a

theorem names_routeRecord : (WireAvp.routeRecord host).names host = true := by
  simp [WireAvp.names, WireAvp.routeRecord]

theorem Reads.command {c : Command} (h : Reads m.bytes c) (hm : m.length < 2 ^ 24) :
    c = m.command :=
  (reads_message hm).unique (Message.encode_command hm ▸ h)

end

namespace Network

variable {ι : Type}

/-- A node's part in an exchange. It has read a request and sends it on; within the 300 seconds
of its mapping it reads an answer and sends that back. -/
inductive Relays (net : Network ι) (i : ι) : (sent forwarded answered returned : List UInt8) → Prop
  | relay {ctx ctx' : CommandProcessorContext} {transport transport' : Transport}
      {sent answered : List UInt8} {c request a answer : Command} {there back : List Event}
      {q q' : Proc (Except String Unit)} {connection connection' : Connection} {deadline : Nat}
      {result : Option (Except String Unit)} {result' : Except String Unit} {id original : UInt32}
      {before after : HopByHopIdMapper} {now later : Nat} :
      ctx.myHost = net.host i → transport ≠ .rest → Reads sent c →
      Reaches (transport.processCommand (net.settings i) ctx c) there q →
      ⟨.addMapping id original, ()⟩ ∈ there →
      ⟨.sendWithin deadline connection request, result⟩ ∈ there →
      -- the id map from then on
      HopByHopIdMapper.Elsewhere id (now + 300000) (before.insertMapping now id original) after →
      later ≤ now + 300000 →
      ctx'.myHost = net.host i → transport' ≠ .rest → Reads answered a → a.isRequest = false →
      Reaches (transport'.processCommand (net.settings i) ctx' a) back q' →
      (∀ original, ⟨.removeMapping a.hopByHopId, original⟩ ∈ back →
        original = (after.removeMapping later a.hopByHopId).1) →
      ⟨.send connection' answer, result'⟩ ∈ back →
      Relays net i sent request.encode answered answer.encode

/-- Nodes in a row: what arrives at the far end of what was sent, and what comes back of what
was answered there. -/
inductive Chain (net : Network ι) : List ι → (sent arrived answered returned : List UInt8) → Prop
  | arrive (message reply : List UInt8) : Chain net [] message message reply reply
  | relay {i : ι} {path : List ι} {sent forwarded arrived answered reply returned : List UInt8} :
      net.Relays i sent forwarded reply returned → Chain net path forwarded arrived answered reply →
      Chain net (i :: path) sent arrived answered returned

variable {net : Network ι} {i : ι} {path : List ι} {m s : Message}
  {forwarded arrived answered returned : List UInt8}

/-- One node, in terms of messages. -/
theorem Relays.message (h : net.Relays i m.bytes forwarded answered returned)
    (hm : m.length + (WireAvp.routeRecord (net.host i)).bytes.length < 2 ^ 24) :
    (m.avps.any fun a => a.names (net.host i)) = false ∧
      ∃ id, forwarded = (m.forwarded (net.host i) id).bytes ∧
        ∀ s : Message, answered = s.bytes → s.length < 2 ^ 24 → s.hopByHopId = id →
          returned = (s.restored m.hopByHopId (WireAvp.names (net.host i))).bytes := by
  cases h with
  | @relay ctx ctx' transport transport' _ _ c request a answer there back q q' _ _ _ _ _ id original
      before after now later hhost htransport hread hthere hmapping hsent hmap hlater hhost'
      htransport' hread' hanswer hback hlookup hreturned =>
    obtain rfl := hread.command (by omega)
    obtain ⟨p, hpath, -⟩ := (transport.processCommand_keeps).path hthere
    obtain ⟨hrequest, -, hlooped, -⟩ := forwarded_of_mem htransport hpath hsent
    obtain ⟨rfl, rfl⟩ := forwarded_of_addMapping htransport hpath hmapping hsent
    rw [CommandProcessorContext.isLoopedRequest, hrequest, Bool.true_and, hhost,
      hasRecordRoute_command] at hlooped
    refine ⟨hlooped, id, ?_, fun s hs hlength hid => ?_⟩
    · rw [hhost, ← command_forwarded, Message.encode_command (length_forwarded ▸ hm)]
    · subst hs
      obtain rfl := hread'.command hlength
      obtain ⟨p', hpath', -⟩ := (transport'.processCommand_keeps).path hback
      obtain ⟨found, hfound, rfl⟩ := returned_of_mem htransport' hanswer hpath' hreturned
      -- the id map still has the mapping that was added for the request
      have horiginal : found = some m.command.hopByHopId := by
        have hmaps := hmap.maps HopByHopIdMapper.maps_insertMapping
        have hhop : s.command.hopByHopId = id := hid
        rw [hlookup found hfound, hhop]
        exact hmaps.lookUp hlater
      rw [horiginal, Option.getD_some, hhost', ← command_restored]
      exact Message.encode_command (Nat.lt_of_le_of_lt length_restored_le hlength)

/-- Nodes in a row, in terms of messages. No node sends on what names it, so none is passed
twice. -/
theorem Chain.message {reply : List UInt8} (h : net.Chain path m.bytes arrived reply returned)
    (hm : m.length + recordsLength (path.map net.host) < 2 ^ 24) :
    (∀ i ∈ path, (m.avps.any fun a => a.names (net.host i)) = false) ∧
      (path.map net.host).Nodup ∧ ∃ id, arrived = (m.through (path.map net.host) id).bytes ∧
        ∀ s : Message, reply = s.bytes → s.length < 2 ^ 24 → s.hopByHopId = id →
          returned = (s.back (path.map net.host) m.hopByHopId).bytes := by
  generalize hsent : m.bytes = sent at h
  induction h generalizing m with
  | arrive message reply =>
    subst hsent
    refine ⟨fun _ h => absurd h List.not_mem_nil, List.nodup_nil, m.hopByHopId, ?_, ?_⟩
    · simp [Message.through]
    · intro s hs _ hid
      simp [Message.back, Message.restored, ← hid, hs]
  | @relay i path _ _ _ _ _ _ hrelays hchain ih =>
    subst hsent
    have hroom : m.length + ((WireAvp.routeRecord (net.host i)).bytes.length +
        recordsLength (path.map net.host)) < 2 ^ 24 := hm
    obtain ⟨hclean, id, rfl, hback⟩ := hrelays.message (by omega)
    obtain ⟨hmarks, hnodup, id', harrived, hreturned⟩ :=
      ih (m := m.forwarded (net.host i) id) (by rw [length_forwarded]; omega) rfl
    have hforwarded : (m.forwarded (net.host i) id).avps = m.avps ++ [.routeRecord (net.host i)] := rfl
    rw [hforwarded] at hmarks
    refine ⟨?_, ?_, id', ?_, fun s hs hlength hid => ?_⟩
    · intro j hj
      rcases List.mem_cons.mp hj with rfl | hj
      · exact hclean
      · have hboth := hmarks j hj
        rw [List.any_append, Bool.or_eq_false_iff] at hboth
        exact hboth.1
    · -- a later node of the same host would have found the Route-Record of this one
      refine List.nodup_cons.mpr ⟨fun hmem => ?_, hnodup⟩
      obtain ⟨j, hj, heq⟩ := List.mem_map.mp hmem
      have hrecord := hmarks j hj
      rw [List.any_append, List.any_cons, heq, names_routeRecord] at hrecord
      simp at hrecord
    · rw [harrived, through_forwarded]
      rfl
    · rw [hback _ (hreturned s hs hlength hid) (Nat.lt_of_le_of_lt length_restored_le hlength) rfl,
        restored_back]
      rfl

/-- **Bridges in a row are transparent.** If there is room for the Route-Records of all of them,
the request that arrives is the one sent, with the Route-Records in the order of the path and
another hop-by-hop id, and no host is passed twice. If the peer at the far end answers the
request it has read, under the id of that, what comes back is its answer under the id of the
request sent, without the AVPs that count as Route-Records of the hosts on the path. -/
theorem relay_chain {c : Command} (h : net.Chain path m.bytes arrived s.bytes returned)
    (hm : m.length + recordsLength (path.map net.host) < 2 ^ 24) (hs : s.length < 2 ^ 24)
    (hread : Reads arrived c) (hid : s.hopByHopId = c.hopByHopId) :
    (path.map net.host).Nodup ∧
      arrived = (m.through (path.map net.host) c.hopByHopId).bytes ∧
      returned = (s.back (path.map net.host) m.hopByHopId).bytes := by
  obtain ⟨-, hnodup, id, rfl, hreturned⟩ := h.message hm
  obtain rfl := hread.command (length_through ▸ hm)
  exact ⟨hnodup, rfl, hreturned s rfl hs hid⟩

/-! ### Two bridges -/

/-- Two bridges with the settings of the sample node. -/
def bridges : Network Bool where
  host second := if second then "proxy" else "bridge"
  settings _ := Node.Sample.node.settings

/-- A bridge takes its part in an exchange about a request that is not looped and not its own:
it gives it the id, and finds its mapping when the answer comes. -/
theorem relays_bridge {m s : Message} {id : UInt32}
    (hsettings : net.settings i = Node.Sample.node.settings)
    (hm : m.length < 2 ^ 24) (hs : s.length < 2 ^ 24)
    (hrequest : m.command.isRequest = true) (happlication : m.command.IsApplication)
    (hrecord : m.command.hasRecordRoute (net.host i) = false)
    (hmine : { Relay.context with myHost := net.host i }.isMyCommand m.command = false)
    (hanswer : s.command.isRequest = false) (happlication' : s.command.IsApplication)
    (hid : s.hopByHopId = id) :
    net.Relays i m.bytes (m.command.forwarded (net.host i) id).encode s.bytes
      (s.command.returned (net.host i) m.hopByHopId).encode := by
  let ctx : CommandProcessorContext := { Relay.context with myHost := net.host i }
  have hread : ∀ m : Message, m.length < 2 ^ 24 → Reads m.bytes m.command :=
    fun m hm => Message.encode_command hm ▸ reads_message hm
  have hlooped : ctx.isLoopedRequest m.command = false := by
    rw [CommandProcessorContext.isLoopedRequest, hrequest]
    exact hrecord
  have hthere : Transport.tcpServer.processCommand (net.settings i) ctx m.command =
      CommandProcessorContext.forwardRequest (net.settings i) ctx m.command := by
    simp [Transport.processCommand, TcpServerConnection.processCommand,
      CommandProcessorContext.processCommand, happlication.1, happlication.2, hlooped, hmine, hrequest,
      ctx]
  have hback : Transport.tcpServer.processCommand (net.settings i) ctx s.command =
      ctx.processAnswer s.command := by
    simp [Transport.processCommand, TcpServerConnection.processCommand,
      CommandProcessorContext.processCommand, CommandProcessorContext.isLoopedRequest,
      happlication'.1, happlication'.2, hanswer]
  -- the request goes out on a connection that is found for it
  let there : List Event := [⟨.nextId, id⟩, ⟨.now, (0 : Nat)⟩, ⟨.mappingsDue 0, false⟩,
    ⟨.addMapping id m.hopByHopId, ()⟩, ⟨.now, (0 : Nat)⟩, ⟨.answersDue 0, false⟩, ⟨.now, (0 : Nat)⟩,
    ⟨.prepareForAnswer 60000 id "b" "host.b" "realm.b", ()⟩,
    ⟨.getConnectionsForRequest (m.command.forwarded (net.host i) id),
      .ok [Node.Sample.connection "c"]⟩,
    ⟨.now, (0 : Nat)⟩, ⟨.now, (0 : Nat)⟩, ⟨.now, (0 : Nat)⟩,
    ⟨.sendWithin 10000 (Node.Sample.connection "c") (m.command.forwarded (net.host i) id),
      some (.ok ())⟩]
  have hrun : ∃ q, Reaches (CommandProcessorContext.forwardRequest (net.settings i) ctx m.command)
      there q := by
    rw [hsettings]
    -- no clean-up is due
    refine exists_reaches_call (exists_reaches_call (exists_reaches_call (exists_reaches_call
      (exists_reaches_call (exists_reaches_call (exists_reaches_call (exists_reaches_call ?_)))))))
    exact ⟨_, .cons (.cons (.cons (.cons (.cons (.refl _)))))⟩
  obtain ⟨q, hrun⟩ := hrun
  have hmapping : ⟨.addMapping id m.hopByHopId, ()⟩ ∈ there := by simp [there]
  have hsent : ⟨.sendWithin 10000 (Node.Sample.connection "c") (m.command.forwarded (net.host i) id),
      some (.ok ())⟩ ∈ there := by simp [there]
  have hmap : HopByHopIdMapper.Elsewhere id (0 + 300000)
      ((HopByHopIdMapper.new 0).insertMapping 0 id m.hopByHopId)
      ((HopByHopIdMapper.new 0).insertMapping 0 id m.hopByHopId) := .refl _
  -- and the answer goes back on the connection of the request
  let back : List Event := [⟨.removeMapping s.command.hopByHopId, some m.hopByHopId⟩,
    ⟨.answerReceived (s.command.removeRecordRoute (net.host i)), some ("a", "host.a", "realm.a")⟩,
    ⟨.getConnectionById "a", some (Node.Sample.connection "a")⟩,
    ⟨.send (Node.Sample.connection "a") (s.command.returned (net.host i) m.hopByHopId), .ok ()⟩]
  have hrun' : Reaches (ctx.processAnswer s.command) back (.ret (.ok ())) := by
    refine .cons (.cons ?_)
    show Reaches (if "host.a" = net.host i ∧ "realm.a" = Relay.context.myRealm then _ else _) _ _
    rw [if_neg fun hown => absurd hown.2 (by decide)]
    exact .cons (.cons (.refl _))
  have hreturned : ⟨.send (Node.Sample.connection "a") (s.command.returned (net.host i) m.hopByHopId),
      .ok ()⟩ ∈ back := by simp [back]
  have hlookup : ∀ original, ⟨.removeMapping s.command.hopByHopId, original⟩ ∈ back → original =
      (((HopByHopIdMapper.new 0).insertMapping 0 id m.hopByHopId).removeMapping 1
        s.command.hopByHopId).1 := by
    intro original hmem
    have heq : original = some m.hopByHopId := by simpa [back] using hmem
    have hcommand : s.command.hopByHopId = id := hid
    rw [heq, hcommand]
    exact (HopByHopIdMapper.maps_insertMapping.lookUp (by decide)).symm
  exact .relay rfl (by decide) (hread m hm) (hthere ▸ hrun) hmapping hsent hmap (by decide) rfl
    (by decide) (hread s hs) hanswer (hback ▸ hrun') hlookup hreturned

/-- A request for anybody. -/
def plainRequest : Message := { Relay.answer [] with flags := 0x80, hopByHopId := 7 }

/-- The answer to it, with the Route-Records, under the id the second bridge has given it. -/
def plainAnswer : Message :=
  { Relay.answer [.routeRecord "bridge", .routeRecord "proxy",
      ⟨268, 0x40, none, [0, 0, 7, 209], LoopDetection.vendor_request⟩] with hopByHopId := 5 }

/-- The request behind the first bridge. -/
def between : Message := plainRequest.forwarded "bridge" 3

/-- The answer behind the second. -/
def answerBetween : Message := plainAnswer.restored 3 (WireAvp.names "proxy")

/-- Both bridges leave their Route-Records and take them off the answer. The request arrives under
the id of the second, and the answer comes back under that of the request. -/
theorem relay_chain_bridges : ∃ arrived returned,
    bridges.Chain [false, true] plainRequest.bytes arrived plainAnswer.bytes returned ∧
      arrived = (plainRequest.through ["bridge", "proxy"] 5).bytes ∧
      returned = (plainAnswer.back ["bridge", "proxy"] 7).bytes ∧
      (plainAnswer.back ["bridge", "proxy"] 7).avps.map WireAvp.code = [268] := by
  have hanswer : plainAnswer.command.isRequest = false :=
    show ((0 : UInt8) &&& 0x80 != 0) = false by decide
  have hfirst : bridges.Relays false plainRequest.bytes
      (plainRequest.command.forwarded (bridges.host false) 3).encode answerBetween.bytes
      (answerBetween.command.returned (bridges.host false) 7).encode :=
    relays_bridge rfl (by decide) (by decide) rfl ⟨by decide, by decide⟩ rfl rfl hanswer
      ⟨by decide, by decide⟩ rfl
  have hsecond : bridges.Relays true between.bytes
      (between.command.forwarded (bridges.host true) 5).encode plainAnswer.bytes
      (plainAnswer.command.returned (bridges.host true) 3).encode :=
    relays_bridge rfl (by decide) (by decide) rfl ⟨by decide, by decide⟩ rfl rfl hanswer
      ⟨by decide, by decide⟩ rfl
  have hforwarded : (plainRequest.command.forwarded (bridges.host false) 3).encode = between.bytes := by
    rw [← command_forwarded]
    exact Message.encode_command (by decide)
  have hreturned : (plainAnswer.command.returned (bridges.host true) 3).encode =
      answerBetween.bytes := by
    rw [← command_restored]
    exact Message.encode_command (by decide)
  rw [hforwarded] at hfirst
  rw [hreturned] at hsecond
  have hread : Reads (between.command.forwarded (bridges.host true) 5).encode
      (between.forwarded "proxy" 5).command := by
    rw [← command_forwarded]
    exact reads_message (by decide)
  obtain ⟨-, harrived, hback⟩ := relay_chain (.relay hfirst (.relay hsecond (.arrive _ _)))
    (by decide) (by decide) hread rfl
  exact ⟨_, _, .relay hfirst (.relay hsecond (.arrive _ _)), harrived, hback, by decide⟩

end Network

end RestDiameterBridge
