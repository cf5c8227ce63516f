import Mathlib.Data.List.Flatten
import RestDiameterBridge.Message
import RestDiameterBridge.Transport.Course

/-!
# RestDiameterBridge.Transport.Relay

What the bridge changes in a message it passes on.

A message is decoded, edited and encoded again. `relay_transparent` compares the bytes: a
forwarded request has the generated hop-by-hop id and one more Route-Record, an answer
that is sent on has the original id and lacks the AVPs that count as Route-Records of this
host, and everything else is as it was. What counts is the code and the data; a vendor's
AVP of that code is dropped as well.
-/

namespace RestDiameterBridge

open Bytes Program

/-- The Route-Record of a host. -/
def WireAvp.routeRecord (host : String) : WireAvp :=
  ⟨282, 0x40, none, host.toUTF8.data.toList, rfl⟩

/-- The code of a Route-Record over the name of the host. -/
def WireAvp.names (host : String) (a : WireAvp) : Bool :=
  a.code == 282 && a.data == host.toUTF8.data.toList

/-- A Route-Record naming the host: it has no vendor. -/
def WireAvp.isRouteRecord (host : String) (a : WireAvp) : Bool := a.vendorId.isNone && a.names host

/-- The request under the generated id, with the Route-Record of the host behind its AVPs. -/
def Message.forwarded (m : Message) (host : String) (id : UInt32) : Message :=
  { m with hopByHopId := id, avps := m.avps ++ [.routeRecord host] }

/-- The answer under the original id, without some of its AVPs. -/
def Message.restored (m : Message) (id : UInt32) (drop : WireAvp → Bool) : Message :=
  { m with hopByHopId := id, avps := m.avps.filter fun a => !drop a }

section
variable {m : Message} {host : String} {id : UInt32}

theorem length_forwarded :
    (m.forwarded host id).length = m.length + (WireAvp.routeRecord host).bytes.length := by
  simp [Message.length, Message.body, Message.forwarded, Nat.add_assoc]

theorem length_restored_le {drop : WireAvp → Bool} : (m.restored id drop).length ≤ m.length := by
  have hsub : (m.restored id drop).body.Sublist m.body := by
    have hfilter : (m.avps.filter fun a => !drop a).Sublist m.avps := List.filter_sublist
    exact hfilter.flatMap WireAvp.bytes
  exact Nat.add_le_add_left hsub.length_le 20

theorem command_forwarded :
    (m.forwarded host id).command = m.command.forwarded host id := by
  have hrecord : (WireAvp.routeRecord host).toAvp =
      Avp.fromUtf8String AvpCode.routeRecord.asU32 AvpFlags.mandatory.asU8 none host := rfl
  unfold Command.forwarded Command.addRecordRoute
  rw [← hrecord]
  simp only [Message.command, Message.forwarded, List.map_append, List.map_cons, List.map_nil]

/-- What the code takes for a Route-Record of the host. -/
theorem isRecordRoute_toAvp (a : WireAvp) : Command.isRecordRoute host a.toAvp = a.names host := by
  have htext : a.toAvp.asUtf8String.elim false (· == host) = (a.data == host.toUTF8.data.toList) := by
    rw [Bool.eq_iff_iff, beq_iff_eq, ← Avp.fromUTF8_eq_some_iff]
    show Option.elim (String.fromUTF8? ⟨a.data.toArray⟩) false (· == host) = true ↔ _
    cases String.fromUTF8? ⟨a.data.toArray⟩ <;> simp
  rw [Command.isRecordRoute, htext]
  rfl

theorem command_restored :
    (m.restored id (WireAvp.names host)).command = m.command.returned host id := by
  unfold Command.returned Command.removeRecordRoute
  simp only [Message.command, Message.restored, List.filter_map]
  congr 2
  refine List.filter_congr fun a _ => ?_
  exact congrArg (!·) (isRecordRoute_toAvp a).symm

end

/-- **A relay changes nothing else.** Of a message a peer's connection has received, every
request that is sent has the bytes of the message under a drawn id and with the Route-Record, if
there is room for it; and every answer that is sent on and has found its original id has the
bytes of the message under that id, without the AVPs of that code that name this host. -/
theorem relay_transparent {settings : SendSettings} {ctx : CommandProcessorContext}
    {transport : Transport} {m : Message} {c : Command} {trace : List Event}
    {q : Proc (Except String Unit)} (htransport : transport ≠ .rest) (hm : m.length < 2 ^ 24)
    (hc : Command.decode m.bytes = .ok c)
    (h : Reaches (transport.processCommand settings ctx c) trace q) :
    (m.length + (WireAvp.routeRecord ctx.myHost).bytes.length < 2 ^ 24 →
      ∀ deadline conn request sent, ⟨.sendWithin deadline conn request, sent⟩ ∈ trace →
        ∃ id, ⟨.nextId, id⟩ ∈ trace ∧ request.encode = (m.forwarded ctx.myHost id).bytes) ∧
    (c.isRequest = false → ∀ conn answer sent, ⟨.send conn answer, sent⟩ ∈ trace →
      ∃ original, ⟨.removeMapping m.hopByHopId, original⟩ ∈ trace ∧ ∀ id, original = some id →
        answer.encode = (m.restored id (WireAvp.names ctx.myHost)).bytes) := by
  rw [Message.decode_bytes hm] at hc
  obtain rfl := Except.ok.inj hc
  obtain ⟨p, hpath, -⟩ := (transport.processCommand_keeps).path h
  constructor
  · intro hroom deadline conn request sent hmem
    obtain ⟨-, -, -, -, id, hid, rfl⟩ := forwarded_of_mem htransport hpath hmem
    refine ⟨id, hid, ?_⟩
    rw [← command_forwarded]
    exact Message.encode_command (length_forwarded ▸ hroom)
  · intro hanswer conn answer sent hmem
    obtain ⟨original, hlookup, rfl⟩ := returned_of_mem htransport hanswer hpath hmem
    refine ⟨original, hlookup, fun id hid => ?_⟩
    subst hid
    rw [Option.getD_some, ← command_restored]
    exact Message.encode_command (Nat.lt_of_le_of_lt length_restored_le hm)

/-! ### An answer with a vendor's AVP of the same code -/

namespace Relay

def context : CommandProcessorContext :=
  { connectionId := "b", myHost := "bridge", myRealm := "home.org", peerHost := "host.b"
    peerRealm := "realm.b" }

/-- An answer to a request that was forwarded under the id 0. -/
def answer (avps : List WireAvp) : Message :=
  { flags := 0, code := 272, applicationId := 4, hopByHopId := 0, endToEndId := 1, avps
    code_lt := by decide }

/-- The AVP of a vendor, with the code of a Route-Record and the name of this host as data. -/
def vendorAvp : WireAvp := ⟨282, 0x80, some 10415, "bridge".toUTF8.data.toList, rfl⟩

/-- The answer finds its original id, 7, and its connection. -/
def trace (avps : List WireAvp) : List Event :=
  [⟨.removeMapping 0, some 7⟩,
    ⟨.answerReceived ((answer avps).command.removeRecordRoute "bridge"),
      some ("a", "host.a", "realm.a")⟩,
    ⟨.getConnectionById "a", some (Node.Sample.connection "a")⟩,
    ⟨.send (Node.Sample.connection "a") ((answer avps).command.returned "bridge" 7), .ok ()⟩]

theorem reaches_trace (settings : SendSettings) (avps : List WireAvp) :
    Reaches (Transport.tcpServer.processCommand settings context (answer avps).command)
      (trace avps) (.ret (.ok ())) := by
  have hanswer : (answer avps).command.isRequest = false :=
    show ((0 : UInt8) &&& 0x80 != 0) = false by decide
  have hprogram : Transport.tcpServer.processCommand settings context (answer avps).command =
      context.processAnswer (answer avps).command := by
    simp [Transport.processCommand, TcpServerConnection.processCommand,
      CommandProcessorContext.processCommand, CommandProcessorContext.isLoopedRequest, hanswer]
  rw [hprogram]
  exact .cons (.cons (.cons (.cons (.refl _))))

/-- A Route-Record of this host, and an AVP of another code. -/
def records : List WireAvp :=
  [.routeRecord "bridge", ⟨268, 0x40, none, [0, 0, 7, 209], rfl⟩]

end Relay

open Relay in
/-- The Route-Record is gone, and nothing else. -/
theorem relay_transparent_records :
    ((answer records).command.returned "bridge" 7).encode =
      ((answer records).restored 7 (WireAvp.names "bridge")).bytes := by
  have hlength : (answer records).length < 2 ^ 24 := by decide
  have hdecode := Message.decode_bytes hlength
  have hrun := reaches_trace Node.Sample.node.settings records
  have hsent : (⟨.send (Node.Sample.connection "a") ((answer records).command.returned "bridge" 7),
      .ok ()⟩ : Event) ∈ trace records := by simp [trace]
  obtain ⟨original, hlookup, hrestored⟩ :=
    (relay_transparent (by decide) hlength hdecode hrun).2 rfl _ _ _ hsent
  have horiginal : (answer records).hopByHopId = 0 ∧ original = some 7 := by
    simpa [trace] using hlookup
  exact hrestored 7 horiginal.2

open Relay in
/-- The vendor's AVP is no Route-Record, and is dropped. -/
theorem not_relay_transparent_vendorAvp :
    Command.decode (answer [vendorAvp]).bytes = .ok (answer [vendorAvp]).command ∧
      Reaches (Transport.tcpServer.processCommand Node.Sample.node.settings context
        (answer [vendorAvp]).command) (trace [vendorAvp]) (.ret (.ok ())) ∧
      ((answer [vendorAvp]).command.returned "bridge" 7).encode ≠
        ((answer [vendorAvp]).restored 7 (WireAvp.isRouteRecord "bridge")).bytes := by
  refine ⟨Message.decode_bytes (by decide), reaches_trace _ _, fun heq => ?_⟩
  have hlength := congrArg List.length heq
  exact absurd hlength (by decide)

end RestDiameterBridge
