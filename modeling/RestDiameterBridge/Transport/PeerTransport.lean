import RestDiameterBridge.Transport.CommandProcessor

/-!
# RestDiameterBridge.Transport.PeerTransport

The command processing of the transports (`src/transport/tcp_transport.rs`,
`sctp_transport.rs`): each answers the connection-control requests DWR and DPR itself and
passes everything else to the command processor. The four differ in what the control
answers contain and in whether a DPR closes the connection.
-/

namespace RestDiameterBridge

/-- The two AVPs that name this stack as the origin. -/
def originAvps (host realm : String) : List Avp :=
  [Avp.fromUtf8String AvpCode.originHost.asU32 AvpFlags.mandatory.asU8 none host,
    Avp.fromUtf8String AvpCode.originRealm.asU32 AvpFlags.mandatory.asU8 none realm]

/-- A control request. -/
def controlRequest (code : CommandCode) (hopByHopId endToEndId : UInt32) (avps : List Avp) :
    Command :=
  { code := code.asU32, flags := CommandFlags.request.asU8, applicationId := 0, hopByHopId,
    endToEndId, avps }

/-- An answer to a control request: its code and ids, no flags. -/
def controlAnswer (code : CommandCode) (hopByHopId endToEndId : UInt32) (avps : List Avp) :
    Command :=
  { code := code.asU32, flags := 0, applicationId := 0, hopByHopId, endToEndId, avps }

/-- The origin and a number, the content of most control answers. -/
def originAnd (ctx : CommandProcessorContext) (code : AvpCode) (value : UInt32) : List Avp :=
  originAvps ctx.myHost ctx.myRealm ++
    [Avp.fromUnsigned32 code.asU32 AvpFlags.mandatory.asU8 none value]

/-- The DWR a client sends when its timer ticks. Its AVPs are those the dictionary gives for
`Origin-Host` and `Origin-Realm`. -/
def deviceWatchdogRequest (ctx : CommandProcessorContext) (hopByHopId endToEndId : UInt32) :
    Command :=
  controlRequest .deviceWatchdog hopByHopId endToEndId (originAvps ctx.myHost ctx.myRealm)

namespace TcpClientConnection

/-- `Connection::send` of the client on itself. -/
def send (command : Command) : Proc (Except String Unit) := do
  if command.code ≠ CommandCode.capabilitiesExchange.asU32 ∧ !(← await .isConnected) then
    return .error "Connection not established, cannot send command"
  else await (.write command)

/-- Write a watchdog request. -/
def sendDwr (ctx : CommandProcessorContext) : Proc (Except String Unit) := do
  let hopByHopId ← await .nextId
  let endToEndId ← await .nextEndToEndId
  await (.write (deviceWatchdogRequest ctx hopByHopId endToEndId))

/-- Answer a watchdog request, under fresh ids. -/
def sendDwa (ctx : CommandProcessorContext) : Proc (Except String Unit) := do
  let hopByHopId ← await .nextId
  let endToEndId ← await .nextEndToEndId
  await (.write (controlAnswer .deviceWatchdog hopByHopId endToEndId
    (originAvps ctx.myHost ctx.myRealm)))

/-- Write a disconnect request. -/
def sendDprCommand (ctx : CommandProcessorContext) : Proc (Except String Unit) := do
  let hopByHopId ← await .nextId
  let endToEndId ← await .nextEndToEndId
  await (.write (controlRequest .disconnectPeer hopByHopId endToEndId
    (originAnd ctx .disconnectCause 0)))

/-- Announce the disconnect and shut the socket down. -/
def close (ctx : CommandProcessorContext) : Proc (Except String Unit) := do
  match ← sendDprCommand ctx with
  | .ok () => await .shutdown
  | .error e => return .error e

/-- Answer a disconnect request and close. -/
def processDpr (ctx : CommandProcessorContext) (command : Command) :
    Proc (Except String Unit) := do
  match ← send (controlAnswer .disconnectPeer command.hopByHopId command.endToEndId
      (originAnd ctx .disconnectCause 0)) with
  | .ok () => close ctx
  | .error e => return .error e

/-- Process one received command. -/
def processCommand (settings : SendSettings) (ctx : CommandProcessorContext)
    (command : Command) : Proc (Except String Unit) :=
  if command.code = CommandCode.deviceWatchdog.asU32 then
    if command.isRequest then sendDwa ctx else return .ok ()
  else if command.code = CommandCode.disconnectPeer.asU32 ∧ command.isRequest then
    processDpr ctx command
  else CommandProcessorContext.processCommand settings ctx command

end TcpClientConnection

namespace TcpServerConnection

/-- `Connection::close` of the server side. -/
def close : Proc (Except String Unit) := await .shutdown

/-- Answer a watchdog request. -/
def processDwr (ctx : CommandProcessorContext) (command : Command) : Proc (Except String Unit) :=
  await (.write (controlAnswer .deviceWatchdog command.hopByHopId command.endToEndId
    (originAnd ctx .resultCode 2001)))

/-- Answer a disconnect request and close. -/
def processDpr (ctx : CommandProcessorContext) (command : Command) :
    Proc (Except String Unit) := do
  match ← await (.write (controlAnswer .disconnectPeer command.hopByHopId command.endToEndId
      (originAnd ctx .resultCode 2001))) with
  | .ok () => close
  | .error e => return .error e

/-- Process one received command. -/
def processCommand (settings : SendSettings) (ctx : CommandProcessorContext)
    (command : Command) : Proc (Except String Unit) :=
  if command.code = CommandCode.deviceWatchdog.asU32 ∧ command.isRequest then
    processDwr ctx command
  else if command.code = CommandCode.disconnectPeer.asU32 ∧ command.isRequest then
    processDpr ctx command
  else CommandProcessorContext.processCommand settings ctx command

end TcpServerConnection

namespace SctpClientConnection

/-- Write a watchdog request. -/
def sendDwr (ctx : CommandProcessorContext) : Proc (Except String Unit) := do
  let hopByHopId ← await .nextId
  let endToEndId ← await .nextEndToEndId
  await (.write (deviceWatchdogRequest ctx hopByHopId endToEndId))

/-- Answer a watchdog request, under fresh ids and without AVPs. -/
def sendDwa : Proc (Except String Unit) := do
  let hopByHopId ← await .nextId
  let endToEndId ← await .nextEndToEndId
  await (.write (controlAnswer .deviceWatchdog hopByHopId endToEndId []))

/-- Answer a disconnect request. The connection stays open. -/
def processDpr (command : Command) : Proc (Except String Unit) :=
  await (.write (controlAnswer .disconnectPeer command.hopByHopId command.endToEndId []))

/-- Process one received command. -/
def processCommand (settings : SendSettings) (ctx : CommandProcessorContext)
    (command : Command) : Proc (Except String Unit) :=
  if command.code = CommandCode.deviceWatchdog.asU32 then
    if command.isRequest then sendDwa else return .ok ()
  else if command.code = CommandCode.disconnectPeer.asU32 ∧ command.isRequest then
    processDpr command
  else CommandProcessorContext.processCommand settings ctx command

end SctpClientConnection

namespace SctpServerConnection

/-- Answer a watchdog request: the same answer as the TCP side's. -/
def processDwa (ctx : CommandProcessorContext) (command : Command) : Proc (Except String Unit) :=
  TcpServerConnection.processDwr ctx command

/-- Answer a disconnect request and close: as the TCP side does. -/
def processDpr (ctx : CommandProcessorContext) (command : Command) : Proc (Except String Unit) :=
  TcpServerConnection.processDpr ctx command

/-- Process one received command. -/
def processCommand (settings : SendSettings) (ctx : CommandProcessorContext)
    (command : Command) : Proc (Except String Unit) :=
  if command.code = CommandCode.deviceWatchdog.asU32 ∧ command.isRequest then
    processDwa ctx command
  else if command.code = CommandCode.disconnectPeer.asU32 ∧ command.isRequest then
    processDpr ctx command
  else CommandProcessorContext.processCommand settings ctx command

end SctpServerConnection

end RestDiameterBridge
