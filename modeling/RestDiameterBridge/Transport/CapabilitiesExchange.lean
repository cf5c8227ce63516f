import RestDiameterBridge.CommandFromJson
import RestDiameterBridge.Transport.PeerTransport

/-!
# RestDiameterBridge.Transport.CapabilitiesExchange

The first message of a connection to the servers of this stack, a CER, and its answer
(`create_capability_avps` in `src/utils.rs`, `TcpDiameterServer::handle_connection` in
`src/transport/tcp_transport.rs`, `SctpDiameterServer::handle_cer_exchange` in
`sctp_transport.rs`). The AVPs of the CEA are made from JSON values by the dictionary, and
a name it does not know is a panic.
-/

namespace RestDiameterBridge

/-- Applications of a vendor in the capabilities. -/
structure VendorSpecificApplicationId where
  vendorId : UInt32
  authApplicationId : Option UInt32
  acctApplicationId : Option UInt32

/-- The capabilities in the configuration. -/
structure StackCapability where
  vendorId : UInt32
  productName : String
  hostIps : Option (List String)
  supportedVendorIds : Option (List UInt32)
  authApplicationIds : Option (List UInt32)
  acctApplicationIds : Option (List UInt32)
  vendorSpecificApplicationIds : Option (List VendorSpecificApplicationId)
  inbandSecurityIds : Option (List UInt32)
  firmwareRevision : Option UInt32

section
variable (fmt : TextFormats) (avpMap : AvpMap)

/-- `name_value_to_avp` and its `unwrap`. -/
def unwrapAvp (name : String) (value : Json) : OrPanic Avp :=
  (nameValueToAvp fmt avpMap name value).join

/-- An AVP for each of some numbers. -/
def numberAvps (name : String) (ids : List UInt32) : OrPanic (List Avp) :=
  ids.mapM fun id => unwrapAvp fmt avpMap name (.ofInt id.toNat)

/-- The AVPs of the capabilities, for a CER or a CEA. -/
def createCapabilityAvps (capability : StackCapability) : OrPanic (List Avp) := do
  let hostIps ← (capability.hostIps.getD []).mapM fun hostIp =>
    (avpMap.getByName "Host-IP-Address").map fun named => Avp.fromAddress fmt named.code 0 none hostIp
  let vendorId ← unwrapAvp fmt avpMap "Vendor-Id" (.ofInt capability.vendorId.toNat)
  let productName ← unwrapAvp fmt avpMap "Product-Name" (.string capability.productName)
  let supportedVendorIds ← numberAvps fmt avpMap "Supported-Vendor-Id"
    (capability.supportedVendorIds.getD [])
  let authApplicationIds ← numberAvps fmt avpMap "Auth-Application-Id"
    (capability.authApplicationIds.getD [])
  let inbandSecurityIds ← numberAvps fmt avpMap "Inband-Security-Id"
    (capability.inbandSecurityIds.getD [])
  let acctApplicationIds ← numberAvps fmt avpMap "Acct-Application-Id"
    (capability.acctApplicationIds.getD [])
  let vendorSpecificApplicationIds ← (capability.vendorSpecificApplicationIds.getD []).mapM
    fun vsa => do
      let vendorId ← unwrapAvp fmt avpMap "Vendor-Id" (.ofInt vsa.vendorId.toNat)
      let authApplicationId ← numberAvps fmt avpMap "Auth-Application-Id"
        vsa.authApplicationId.toList
      let acctApplicationId ← numberAvps fmt avpMap "Acct-Application-Id"
        vsa.acctApplicationId.toList
      (avpMap.getByName "Vendor-Specific-Application-Id").map fun named =>
        Avp.fromGrouped named.code 0 none ([vendorId] ++ authApplicationId ++ acctApplicationId)
  let firmwareRevision ← numberAvps fmt avpMap "Firmware-Revision"
    capability.firmwareRevision.toList
  return hostIps ++ [vendorId, productName] ++ supportedVendorIds ++ authApplicationIds ++
    inbandSecurityIds ++ acctApplicationIds ++ vendorSpecificApplicationIds ++ firmwareRevision

end

/-- A server, as far as the exchange needs it. -/
structure DiameterServer where
  host : String
  realm : String
  capability : StackCapability
  fmt : TextFormats
  avpMap : AvpMap

namespace DiameterServer

/-- The answer to a CER, with the named AVPs in front of those of the capabilities. -/
def createCea (server : DiameterServer) (cer : Command) (named : List (String × Json)) :
    OrPanic Command := do
  let avps ← named.mapM fun member => unwrapAvp server.fmt server.avpMap member.1 member.2
  let cea := controlAnswer .capabilitiesExchange cer.hopByHopId cer.endToEndId avps
  let capabilityAvps ← createCapabilityAvps server.fmt server.avpMap server.capability
  let cea := { cea with avps := cea.avps ++ capabilityAvps }
  return cea.setResultCode ResultCode.diameterSuccess.asU32

/-- Check the CER and write the CEA. -/
def answerCer (cea : Command → OrPanic Command) (writeError : String → String)
    (peerAddress : String) (cer : Command) : OrPanic (Proc (Except String Command)) :=
  if cer.code ≠ CommandCode.capabilitiesExchange.asU32 ∨ !cer.isRequest then
    some (.ret (.error
      s!"Expected CER with command code {CommandCode.capabilitiesExchange.asU32}, got {cer.code} from connection {peerAddress}"))
  else if cer.getOriginHost.isNone ∨ cer.getOriginRealm.isNone then
    some (.ret (.error
      s!"CER missing Origin-Host or Origin-Realm AVP from connection {peerAddress}"))
  else (cea cer).map fun cea => do
    match ← await (.write cea) with
    | .ok () => return .ok cer
    | .error e => return .error (writeError e)

end DiameterServer

namespace TcpDiameterServer

def createCea (server : DiameterServer) (cerCommand : Command) : OrPanic Command :=
  server.createCea cerCommand
    [("Result-Code", .ofInt ResultCode.diameterSuccess.asU32.toNat),
      ("Origin-Host", .string server.host), ("Origin-Realm", .string server.realm),
      ("Vendor-Id", .ofInt 0)]

/-- What a TCP server does with the first command of a connection. -/
def handleConnection (server : DiameterServer) (peerAddress : String) (cer : Command) :
    OrPanic (Proc (Except String Command)) :=
  DiameterServer.answerCer (createCea server)
    (fun e => s!"Failed to write CEA to connection {peerAddress}: {e}") peerAddress cer

end TcpDiameterServer

namespace SctpDiameterServer

def createCea (server : DiameterServer) (cerCommand : Command) : OrPanic Command :=
  server.createCea cerCommand
    [("Origin-Host", .string server.host), ("Origin-Realm", .string server.realm),
      ("Vendor-Id", .ofInt 0)]

/-- What an SCTP server does with the first command of a connection. -/
def handleCerExchange (server : DiameterServer) (peerAddress : String) (cer : Command) :
    OrPanic (Proc (Except String Command)) :=
  DiameterServer.answerCer (createCea server) (fun e => e) peerAddress cer

end SctpDiameterServer

end RestDiameterBridge
