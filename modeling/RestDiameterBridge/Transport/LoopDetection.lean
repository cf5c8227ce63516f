import RestDiameterBridge.CommandBuffer
import RestDiameterBridge.CommandJsonTotal
import RestDiameterBridge.Lib.Trail
import RestDiameterBridge.Transport.Relay

/-!
# RestDiameterBridge.Transport.LoopDetection

Requests on their way through a network of bridges.

The Route-Records of a request are the marks of `Lib.Trail`: `forwards_marks` is the step
that takes them through the encoder, the next node's receive buffer and its decoder. It
needs the message to fit its 24-bit length field. Behind a request that outgrew it, the
next node reads the length modulo 2^24 and may see none of the AVPs; `wrapped` is a
network in which such a request goes round.
-/

namespace RestDiameterBridge

open Bytes Program

/-- What a connection reads off the front of the bytes it has received. -/
def Reads (wire : List UInt8) (c : Command) : Prop := (⟨wire⟩ : CommandBuffer).readCommand.1 = some c

/-- A network of bridges. -/
structure Network (ι : Type) where
  host : ι → String
  settings : ι → SendSettings

namespace Network

variable {ι : Type}

/-- A node has read a request from a peer and sends it on, to whichever node. -/
inductive Forwards (net : Network ι) (i : ι) : List UInt8 → List UInt8 → Prop
  | forward {ctx : CommandProcessorContext} {transport : Transport} {wire : List UInt8}
      {c request : Command} {trace : List Event} {q : Proc (Except String Unit)} {deadline : Nat}
      {connection : Connection} {sent : Option (Except String Unit)} :
      ctx.myHost = net.host i → transport ≠ .rest → Reads wire c →
      Reaches (transport.processCommand (net.settings i) ctx c) trace q →
      ⟨.sendWithin deadline connection request, sent⟩ ∈ trace →
      Forwards net i wire request.encode

/-- The message has room for the Route-Record of the node. -/
def Fits (net : Network ι) (i : ι) (wire : List UInt8) : Prop :=
  ∀ c, Reads wire c → c.encode.length + (WireAvp.routeRecord (net.host i)).bytes.length < 2 ^ 24

end Network

/-! ### From one node to the next -/

section
variable {c : Command} {a : Avp} {bytes data : List UInt8} {host : String} {id : UInt32}

theorem Reads.decoded (h : Reads bytes c) : ∃ frame, Command.decode frame = .ok c := by
  rw [Reads, CommandBuffer.readCommand_eq] at h
  obtain ⟨frame, -, hframe⟩ := Framing.read_eq_some (Prod.ext h rfl)
  have hdecode : (Command.decode frame).toOption = some c := hframe.decode
  cases hd : Command.decode frame with
  | ok c' =>
    rw [hd] at hdecode
    rw [← Option.some.inj hdecode]
    exact ⟨frame, hd⟩
  | error e =>
    rw [hd] at hdecode
    cases hdecode

theorem reads_encode_append (hwf : c.WellFormed) (rest : List UInt8) :
    Reads (c.encode ++ rest) c.wire := by
  rw [Reads, CommandBuffer.readCommand_eq,
    Framing.read_frame_append (CommandBuffer.isFrame_encode hwf)]

theorem Reads.unique {c' : Command} (h : Reads bytes c) (h' : Reads bytes c') : c' = c :=
  Option.some.inj (Eq.trans (Eq.symm h') h)

theorem Avp.Decoded.wellFormed (h : a.Decoded) : a.WellFormed := by
  obtain ⟨data, hdecode⟩ := h
  exact (decode_ok hdecode).2.1

/-- A decoded AVP is in its wire shape. -/
theorem Avp.Decoded.wire (h : a.Decoded) : a.wire = a := by
  obtain ⟨data, hdecode⟩ := h
  obtain ⟨hdata, -⟩ := decode_ok hdecode
  have hsub : a.subAvps = [] := by
    unfold Avp.decode at hdecode
    split at hdecode
    · split at hdecode
      · cases hdecode
      · rw [← Except.ok.inj hdecode]
        rfl
    · cases hdecode
  unfold Avp.wire
  rw [← hdata, ← hsub]
  cases a
  rfl

/-- A decoded command has a 24-bit code. -/
theorem code_lt_of_decode (h : Command.decode data = .ok c) : c.code.toNat < 2 ^ 24 := by
  unfold Command.decode at h
  split at h
  · cases h
  · dsimp only at h
    split at h
    · cases h
    · split at h
      · obtain rfl := Except.ok.inj h
        rw [toNat_and_low24]
        exact Nat.mod_lt _ (by omega)
      · cases h

/-- What the forwarded request has more. -/
theorem length_encode_forwarded (hrecord : (WireAvp.routeRecord host).length < 2 ^ 32) :
    (c.forwarded host id).encode.length =
      c.encode.length + (WireAvp.routeRecord host).bytes.length := by
  rw [Command.length_encode, Command.length_encode, ← WireAvp.encode_toAvp _ hrecord]
  show 20 + ((c.avps ++ [(WireAvp.routeRecord host).toAvp]).flatMap Avp.encode).length = _
  rw [List.flatMap_append, List.length_append, List.flatMap_singleton, Nat.add_assoc]

/-- A forwarded request that fits is read by the next node as it was sent. -/
theorem reads_forwarded (hc : Command.decode data = .ok c)
    (hfits : c.encode.length + (WireAvp.routeRecord host).bytes.length < 2 ^ 24) :
    Reads (c.forwarded host id).encode (c.forwarded host id) := by
  have hdecoded := Command.decoded_of_decode hc
  have hrecord : (WireAvp.routeRecord host).length < 2 ^ 32 := by
    have := (WireAvp.routeRecord host).length_bytes
    omega
  have havps : (c.forwarded host id).avps = c.avps ++ [(WireAvp.routeRecord host).toAvp] := rfl
  have hwf : (c.forwarded host id).WellFormed := by
    refine ⟨code_lt_of_decode (c := c) hc, fun a ha => ?_, length_encode_forwarded hrecord ▸ hfits⟩
    rw [havps] at ha
    rcases List.mem_append.mp ha with hbefore | hnew
    · exact (hdecoded a hbefore).wellFormed
    · rw [List.mem_singleton.mp hnew]
      exact WireAvp.wellFormed_toAvp _
  have hwire : (c.forwarded host id).wire = c.forwarded host id := by
    have hmap : (c.forwarded host id).avps.map Avp.wire = (c.forwarded host id).avps := by
      rw [havps, List.map_append, List.map_singleton, WireAvp.wire_toAvp]
      rw [List.map_congr_left fun a ha => (hdecoded a ha).wire, List.map_id']
    exact congrArg (fun avps => { c.forwarded host id with avps }) hmap
  have hread := reads_encode_append hwf []
  rwa [List.append_nil, hwire] at hread

theorem hasRecordRoute_forwarded : (c.forwarded host id).hasRecordRoute host = true := by
  have hrecord : Command.isRecordRoute host (WireAvp.routeRecord host).toAvp = true := by
    rw [isRecordRoute_toAvp]
    simp [WireAvp.names, WireAvp.routeRecord]
  show (c.avps ++ [(WireAvp.routeRecord host).toAvp]).any (Command.isRecordRoute host) = true
  rw [List.any_append, List.any_cons, hrecord, Bool.true_or, Bool.or_true]

theorem hasRecordRoute_forwarded_of {host' : String} (h : c.hasRecordRoute host' = true) :
    (c.forwarded host id).hasRecordRoute host' = true := by
  show (c.avps ++ [(WireAvp.routeRecord host).toAvp]).any (Command.isRecordRoute host') = true
  have hbefore : c.avps.any (Command.isRecordRoute host') = true := h
  rw [List.any_append, hbefore, Bool.true_or]

end

/-! ### Through the network -/

namespace Network

variable {ι : Type} {net : Network ι} {i j : ι} {wire wire' : List UInt8}

/-- The mark of a node: the Route-Record on what is read. -/
def Marked (net : Network ι) (wire : List UInt8) (i : ι) : Prop :=
  ∃ c, Reads wire c ∧ c.hasRecordRoute (net.host i) = true

/-- One node passes on only what it has not marked, and what it passes on is an application
request with its mark and all earlier ones. -/
theorem forwards_marks (h : net.Forwards i wire wire') (hfits : net.Fits i wire) :
    ¬net.Marked wire i ∧ net.Marked wire' i ∧ (∀ j, net.Marked wire j → net.Marked wire' j) ∧
      ∃ c, Reads wire' c ∧ c.isRequest = true ∧ c.IsApplication := by
  cases h with
  | @forward ctx transport _ c request trace q deadline connection sent hhost htransport hread
      hreaches hmem =>
    obtain ⟨p, hpath, -⟩ := (transport.processCommand_keeps).path hreaches
    obtain ⟨hrequest, happlication, hlooped, -, id, -, rfl⟩ :=
      forwarded_of_mem htransport hpath hmem
    obtain ⟨data, hdecode⟩ := hread.decoded
    rw [hhost]
    have hnext : Reads (c.forwarded (net.host i) id).encode (c.forwarded (net.host i) id) :=
      reads_forwarded hdecode (hfits c hread)
    have hclean : c.hasRecordRoute (net.host i) = false := by
      rwa [CommandProcessorContext.isLoopedRequest, hrequest, Bool.true_and, hhost] at hlooped
    refine ⟨fun hmarked => ?_, ⟨_, hnext, hasRecordRoute_forwarded⟩, fun j hmarked => ?_,
      ⟨_, hnext, hrequest, happlication⟩⟩
    · obtain ⟨c', hread', hrecord⟩ := hmarked
      rw [hread.unique hread', hclean] at hrecord
      cases hrecord
    · obtain ⟨c', hread', hrecord⟩ := hmarked
      rw [hread.unique hread'] at hrecord
      exact ⟨_, hnext, hasRecordRoute_forwarded_of hrecord⟩

end Network

/-- What a looped request leads to: no request, and no response but the one that says so,
which has been sent when the program ends, if its connection was found. -/
theorem looped_of_path {ctx : CommandProcessorContext} {transport : Transport} {c : Command}
    {trace : List Event} {p : Point} (htransport : transport ≠ .rest) (hrequest : c.isRequest = true)
    (happlication : c.IsApplication) (hrecord : c.hasRecordRoute ctx.myHost = true)
    (h : Path (Course ctx) (.start ctx transport c) trace p) :
    (∀ deadline connection request sent,
      (⟨.sendWithin deadline connection request, sent⟩ : Event) ∉ trace) ∧
    (∀ connection response sent, ⟨.send connection response, sent⟩ ∈ trace →
      response = ctx.loopDetected c) ∧
    ∀ result, p.Ends result → ∃ byId, ⟨.getConnectionById ctx.connectionId, byId⟩ ∈ trace ∧
      ∀ connection, byId = some connection →
        ∃ sent, ⟨.send connection (ctx.loopDetected c), sent⟩ ∈ trace := by
  have hlooped : ctx.isLoopedRequest c = true := by
    rw [CommandProcessorContext.isLoopedRequest, hrequest, hrecord, Bool.true_and]
  have hstart : Point.start ctx transport c = .responding ctx.connectionId
      (c.getOriginHost.getD "") (c.getOriginRealm.getD "") (ctx.loopDetected c) := by
    unfold Point.start
    rw [if_neg htransport, if_neg (by simp [happlication.1, happlication.2]), if_pos hlooped]
  rw [hstart] at h
  rcases path_responding h with ⟨rfl, rfl⟩ | hresponded
  · exact ⟨by simp, by simp, fun _ hends => hends.elim⟩
  · refine ⟨fun deadline connection request sent hmem => hresponded.calls _ hmem,
      fun connection response sent hmem => (hresponded.target _ _ _ hmem).1, hresponded.ends⟩

/-- **No request goes round.** Through nodes for which the message has room, each node
passes a request on at most once, so it is passed on at most as often as there are nodes.
Back at a node that has passed it on, no request is sent and every response that is sent
says 3005; it has been sent when the program ends, if the connection is still there. -/
theorem forwarded_once {ι : Type} [Fintype ι] {net : Network ι} {wire wire' : List UInt8}
    {path : List ι} (h : Trail (fun i m m' => net.Forwards i m m' ∧ net.Fits i m) wire path wire') :
    path.Nodup ∧ path.length ≤ Fintype.card ι ∧
      ∀ i ∈ path, ∀ ctx : CommandProcessorContext, ctx.myHost = net.host i →
        ∀ transport : Transport, transport ≠ .rest → ∀ c, Reads wire' c →
        ∀ trace q, Reaches (transport.processCommand (net.settings i) ctx c) trace q →
          (∀ deadline connection request sent,
            (⟨.sendWithin deadline connection request, sent⟩ : Event) ∉ trace) ∧
          (∀ connection response sent, ⟨.send connection response, sent⟩ ∈ trace →
            response.isRequest = false ∧ response.hopByHopId = c.hopByHopId ∧
              response.getResultCode = some 3005) ∧
          ∀ result, q = .ret result → ∃ byId, ⟨.getConnectionById ctx.connectionId, byId⟩ ∈ trace ∧
            ∀ connection, byId = some connection →
              ∃ response sent, ⟨.send connection response, sent⟩ ∈ trace := by
  have hmark := fun i m m' (hstep : net.Forwards i m m' ∧ net.Fits i m) =>
    (Network.forwards_marks hstep.1 hstep.2).2.1
  have hkeep := fun i m m' (hstep : net.Forwards i m m' ∧ net.Fits i m) =>
    (Network.forwards_marks hstep.1 hstep.2).2.2.1
  have hrefuse := fun i m m' (hstep : net.Forwards i m m' ∧ net.Fits i m) =>
    (Network.forwards_marks hstep.1 hstep.2).1
  have hnodup := h.nodup hmark hkeep hrefuse
  refine ⟨hnodup, hnodup.length_le_card, ?_⟩
  intro i hi ctx hhost transport htransport c hread trace q hreaches
  obtain ⟨c', hread', hrecord⟩ := h.seen_of_mem hmark hkeep i hi
  obtain ⟨c'', hread'', hrequest, happlication⟩ := h.holds
    (p := fun m => ∃ c, Reads m c ∧ c.isRequest = true ∧ c.IsApplication)
    (List.ne_nil_of_mem hi) fun i m m' hstep => (Network.forwards_marks hstep.1 hstep.2).2.2.2
  obtain rfl := hread.unique hread'
  obtain rfl := hread.unique hread''
  obtain ⟨p, hpath, hends⟩ := (transport.processCommand_keeps).path hreaches
  rw [← hhost] at hrecord
  obtain ⟨hnone, honly, hlast⟩ := looped_of_path htransport hrequest happlication hrecord hpath
  refine ⟨hnone, fun connection response sent hmem => ?_, fun result hresult => ?_⟩
  · rw [honly connection response sent hmem]
    exact ⟨answers_loopDetected.isRequest, answers_loopDetected.hopByHopId,
      Command.getResultCode_setResultCode⟩
  · subst hresult
    obtain ⟨byId, hlookup, hsent⟩ := hlast result hends
    refine ⟨byId, hlookup, fun connection hconnection => ?_⟩
    obtain ⟨sent, hmem⟩ := hsent connection hconnection
    exact ⟨_, sent, hmem⟩

/-! ### A request that outgrows its length field -/

/-- What is left of a request that has grown by 2^24 bytes: the next node reads the header
and no AVPs. -/
theorem reads_wrapped {m : Message} (hm : m.body.length = 2 ^ 24) :
    Reads m.command.encode { m.command with avps := [] } := by
  have hsum := Message.sum_totalLength (m := m) (by rw [Message.length, hm]; omega)
  have hlength : ((20 + 2 ^ 24).toUInt32 &&& 0x00FFFFFF : UInt32) = 20 := by decide
  have hempty : (20 : Nat).toUInt32 &&& 0x00FFFFFF = 20 := by decide
  have hsplit : m.command.encode =
      ({ m.command with avps := [] } : Command).encode ++ m.command.avps.flatMap Avp.encode := by
    simp only [Command.encode, hsum, hm, hlength, List.append_assoc, List.map_nil, List.sum_nil,
      Nat.add_zero, hempty, List.flatMap_nil, List.nil_append]
  have hwf : ({ m.command with avps := [] } : Command).WellFormed := by
    refine ⟨m.code_lt, by simp, ?_⟩
    rw [Command.length_encode, List.flatMap_nil, List.length_nil]
    omega
  rw [hsplit]
  exact reads_encode_append hwf _

theorem reads_message {m : Message} (hm : m.length < 2 ^ 24) : Reads m.command.encode m.command := by
  have hread := reads_encode_append (Message.wellFormed_command hm) []
  rwa [List.append_nil, Message.wire_command] at hread

/-- A request that is forwarded goes out on the first connection that is found for it. -/
theorem reaches_sendWithin (settings : SendSettings) (htimeout : settings.totalTimeout ≠ 0)
    (ctx : CommandProcessorContext) (c : Command) (conn : Connection) (id : UInt32) :
    ∃ deadline trace q, Reaches (CommandProcessorContext.forwardRequest settings ctx c) trace q ∧
      ⟨.sendWithin deadline conn (c.forwarded ctx.myHost id), some (.ok ())⟩ ∈ trace := by
  have hremaining : 0 + settings.totalTimeout - 0 ≠ 0 := by simpa using htimeout
  let deadline := 0 + if 0 + settings.totalTimeout - 0 < settings.perConnTimeout then
    0 + settings.totalTimeout - 0 else settings.perConnTimeout
  have hrun : ∃ q, Reaches (CommandProcessorContext.forwardRequest settings ctx c)
      [⟨.nextId, id⟩, ⟨.now, (0 : Nat)⟩, ⟨.mappingsDue 0, false⟩,
        ⟨.addMapping id c.hopByHopId, ()⟩, ⟨.now, (0 : Nat)⟩, ⟨.answersDue 0, false⟩,
        ⟨.now, (0 : Nat)⟩,
        ⟨.prepareForAnswer 60000 id ctx.connectionId ctx.peerHost ctx.peerRealm, ()⟩,
        ⟨.getConnectionsForRequest (c.forwarded ctx.myHost id), .ok [conn]⟩,
        ⟨.now, (0 : Nat)⟩, ⟨.now, (0 : Nat)⟩, ⟨.now, (0 : Nat)⟩,
        ⟨.sendWithin deadline conn (c.forwarded ctx.myHost id), some (.ok ())⟩] q := by
    -- no clean-up is due
    refine exists_reaches_call (exists_reaches_call (exists_reaches_call (exists_reaches_call
      (exists_reaches_call (exists_reaches_call (exists_reaches_call (exists_reaches_call ?_)))))))
    refine exists_reaches_call (exists_reaches_call (exists_reaches_call ?_))
    show ∃ q, Reaches (Program.bind (Program.bind
      (if 0 + settings.totalTimeout - 0 = 0 then _ else _) _) _) _ q
    rw [if_neg hremaining]
    exact ⟨_, .cons (.cons (.refl _))⟩
  obtain ⟨q, hreaches⟩ := hrun
  exact ⟨deadline, _, q, hreaches, by simp⟩

namespace LoopDetection

/-- Two nodes, `false` and `true`. -/
def network : Network Bool where
  host node := if node then "b.example.org" else "a.example.org"
  settings _ := Node.Sample.node.settings

def context (node : Bool) : CommandProcessorContext :=
  { connectionId := "c", myHost := network.host node, myRealm := "example.org", peerHost := "p"
    peerRealm := "example.org" }

theorem code_lt_request : (272 : UInt32).toNat < 2 ^ 24 := (Relay.answer []).code_lt

theorem vendor_request : ((0x40 : UInt8) &&& 0x80 != 0) = (none : Option UInt32).isSome := rfl

/-- A request with one AVP. -/
def request (data : List UInt8) : Message :=
  { flags := 0x80, code := 272, applicationId := 4, hopByHopId := 7, endToEndId := 9
    avps := [⟨1, 0x40, none, data, vendor_request⟩], code_lt := code_lt_request }

/-- A request that is neither looped nor for the node can be passed on. -/
theorem forwards_request (node : Bool) {wire : List UInt8} {c : Command} (hread : Reads wire c)
    (hrequest : c.isRequest = true) (hcode : c.code = 272)
    (hrecord : c.hasRecordRoute (network.host node) = false) (hhost : c.getDestinationHost = none) :
    network.Forwards node wire (c.forwarded (network.host node) 0).encode := by
  have hnamed : network.host node ≠ "" := by cases node <;> decide
  have hmine : (context node).isMyCommand c = false := by
    unfold CommandProcessorContext.isMyCommand
    rw [hhost]
    simp [context, Ne.symm hnamed]
  have hlooped : (context node).isLoopedRequest c = false := by
    rw [CommandProcessorContext.isLoopedRequest, hrequest]
    exact hrecord
  have hprogram : Transport.tcpServer.processCommand (network.settings node) (context node) c =
      CommandProcessorContext.forwardRequest (network.settings node) (context node) c := by
    simp [Transport.processCommand, TcpServerConnection.processCommand,
      CommandProcessorContext.processCommand, hcode, hlooped, hmine, hrequest,
      CommandCode.asU32]
  have htimeout : (network.settings node).totalTimeout ≠ 0 := show 60000 ≠ 0 by omega
  obtain ⟨deadline, trace, q, hreaches, hmem⟩ := reaches_sendWithin (network.settings node) htimeout
    (context node) c (Node.Sample.connection "d") 0
  have hhost : (context node).myHost = network.host node := rfl
  exact .forward hhost (by decide) hread (hprogram ▸ hreaches) hmem

/-- The request with `length` data bytes and the Route-Records of the nodes that are given. -/
def relayed (length : Nat) (nodes : List Bool) : Message :=
  { request (List.replicate length 0) with
    avps := (request (List.replicate length 0)).avps ++
      nodes.map fun node => .routeRecord (network.host node)
    hopByHopId := if nodes = [] then 7 else 0 }

section
variable {length : Nat} {nodes : List Bool} {node : Bool}

theorem forwarded_relayed :
    (relayed length nodes).command.forwarded (network.host node) 0 =
      (relayed length (nodes ++ [node])).command := by
  rw [← command_forwarded]
  simp [Message.command, Message.forwarded, relayed, request]

theorem length_body_relayed (hlength : length % 4 = 0) :
    (relayed length nodes).body.length = 8 + length + 24 * nodes.length := by
  have hrecord : ∀ node, (WireAvp.routeRecord (network.host node)).bytes.length = 24 := by
    intro node
    cases node <;> decide
  have hrecords : ((nodes.map fun node => WireAvp.routeRecord (network.host node)).flatMap
      WireAvp.bytes).length = 24 * nodes.length := by
    rw [List.flatMap_map, List.length_flatMap]
    simp [hrecord, Nat.mul_comm]
  rw [Message.body, relayed, List.flatMap_append, List.length_append, hrecords]
  simp [request, WireAvp.length_bytes, WireAvp.length, WireAvp.vendorBytes, padLen, hlength]

theorem hasRecordRoute_relayed (hnode : node ∉ nodes) :
    (relayed length nodes).command.hasRecordRoute (network.host node) = false := by
  have hnames : ∀ other ∈ nodes,
      Command.isRecordRoute (network.host node) (WireAvp.routeRecord (network.host other)).toAvp =
        false := by
    intro other hother
    have hne : other ≠ node := fun heq => hnode (heq ▸ hother)
    rw [isRecordRoute_toAvp]
    revert hne
    cases node <;> cases other <;> decide
  rw [Command.hasRecordRoute, List.any_eq_false]
  intro a ha
  obtain ⟨b, hb, rfl⟩ := List.mem_map.mp ha
  rcases List.mem_append.mp hb with hfirst | hrecord
  · rw [List.mem_singleton.mp hfirst]
    simp [isRecordRoute_toAvp, WireAvp.names]
  · obtain ⟨other, hother, rfl⟩ := List.mem_map.mp hrecord
    simp [hnames other hother]

theorem forwards_relayed (nodes : List Bool) {wire : List UInt8}
    (hread : Reads wire (relayed length nodes).command)
    (hnode : node ∉ nodes) :
    network.Forwards node wire (relayed length (nodes ++ [node])).command.encode := by
  have hhost : (relayed length nodes).command.getDestinationHost = none := by
    have hnone : (relayed length nodes).command.getAvp 293 = none := by
      rw [Command.getAvp, List.find?_eq_none]
      intro a ha
      obtain ⟨b, hb, rfl⟩ := List.mem_map.mp ha
      rcases List.mem_append.mp hb with hfirst | hrecord
      · rw [List.mem_singleton.mp hfirst]
        simp [WireAvp.toAvp]
      · obtain ⟨other, -, rfl⟩ := List.mem_map.mp hrecord
        simp [WireAvp.toAvp, WireAvp.routeRecord]
    rw [Command.getDestinationHost, Command.getText]
    exact congrArg (Option.bind · Avp.asUtf8String) hnone
  have hrequest : (relayed length nodes).command.isRequest = true :=
    show ((0x80 : UInt8) &&& 0x80 != 0) = true by decide
  rw [← forwarded_relayed]
  exact forwards_request node hread hrequest rfl (hasRecordRoute_relayed hnode) hhost

end

/-- The data with which the request has 2^24 bytes of AVPs behind both nodes. -/
def oversized : Nat := 2 ^ 24 - 56

end LoopDetection

open LoopDetection in
/-- A request that both nodes pass on, and fits; it may not come back to the first. -/
theorem forwarded_once_relayed :
    ∃ wire c, Trail network.Forwards (relayed 0 []).command.encode [false, true] wire ∧
      Reads wire c ∧ ∀ trace q,
        Reaches (Transport.tcpServer.processCommand (network.settings false) (context false) c)
          trace q → ∀ deadline connection request sent,
          (⟨.sendWithin deadline connection request, sent⟩ : Event) ∉ trace := by
  have hread : ∀ nodes : List Bool, nodes.length ≤ 2 →
      Reads (relayed 0 nodes).command.encode (relayed 0 nodes).command := by
    intro nodes hnodes
    refine reads_message ?_
    rw [Message.length, length_body_relayed (by decide)]
    omega
  have hstep : ∀ (nodes : List Bool) (node : Bool), nodes.length ≤ 1 → node ∉ nodes →
      network.Forwards node (relayed 0 nodes).command.encode
        (relayed 0 (nodes ++ [node])).command.encode ∧
      network.Fits node (relayed 0 nodes).command.encode := by
    intro nodes node hnodes hnode
    refine ⟨forwards_relayed nodes (hread nodes (by omega)) hnode, fun c hc => ?_⟩
    obtain rfl := (hread nodes (by omega)).unique hc
    have hrecord : (WireAvp.routeRecord (network.host node)).bytes.length = 24 := by
      cases node <;> decide
    rw [Command.length_encode, Message.flatMap_encode, length_body_relayed (by decide), hrecord]
    · omega
    · rw [Message.length, length_body_relayed (by decide)]
      omega
  have htrail : Trail (fun i m m' => network.Forwards i m m' ∧ network.Fits i m)
      (relayed 0 []).command.encode [false, true] (relayed 0 [false, true]).command.encode :=
    .forward (.forward (.start _) (hstep [] false (by simp) (by simp)))
      (hstep [false] true (by simp) (by simp))
  obtain ⟨-, -, hback⟩ := forwarded_once htrail
  refine ⟨_, _, .forward (.forward (.start _) (hstep [] false (by simp) (by simp)).1)
    (hstep [false] true (by simp) (by simp)).1, hread _ (by simp), fun trace q hreaches => ?_⟩
  exact (hback false (by simp) (context false) rfl .tcpServer (by decide) _ (hread _ (by simp))
    trace q hreaches).1

open LoopDetection in
/-- Behind the second node the request counts 2^24 bytes more than it says, the first node
sees it without its Route-Records, and passes it on again. -/
theorem not_forwarded_once_oversized :
    Function.Injective network.host ∧
      ∃ wire, Trail network.Forwards (relayed oversized []).command.encode [false, true, false] wire ∧
        ¬[false, true, false].Nodup ∧ Fintype.card Bool < [false, true, false].length := by
  have hread : ∀ nodes : List Bool, nodes.length ≤ 1 →
      Reads (relayed oversized nodes).command.encode (relayed oversized nodes).command := by
    intro nodes hnodes
    refine reads_message ?_
    rw [Message.length, length_body_relayed (by decide), oversized]
    omega
  have hwrapped := reads_wrapped (m := relayed oversized [false, true])
    (by rw [length_body_relayed (by decide)]; decide)
  have hagain := forwards_request false hwrapped (by decide) rfl rfl rfl
  refine ⟨?_, _, .forward (.forward (.forward (.start _)
    (forwards_relayed [] (hread [] (by simp)) (by simp)))
    (forwards_relayed [false] (hread [false] (by simp)) (by simp))) hagain, by decide,
    by decide⟩
  intro i j heq
  revert heq
  cases i <;> cases j <;> decide

end RestDiameterBridge
