import RestDiameterBridge.Transport.SendRequest

/-!
# RestDiameterBridge.Transport.CommandProcessor

What every transport does with an application command
(`src/transport/command_processor.rs`): reject a looped request, handle a request for
this stack locally, forward any other request, and bring an answer back to where its
request came from.

Forwarding and answering meet only in shared state: `forwardRequest` leaves the original
hop-by-hop id with the id map and the origin of the request with the answer manager, and
`processAnswer`, running in whichever task the answer arrives, takes the one and reads
the other.
-/

namespace RestDiameterBridge

/-- What a transport passes on with a command: its connection, this stack's identity and
the peer's. -/
structure CommandProcessorContext where
  connectionId : String
  myHost : String
  myRealm : String
  peerHost : String
  peerRealm : String
  deriving Repr, DecidableEq

namespace CommandProcessorContext

/-- A request that has been through this host before. -/
def isLoopedRequest (ctx : CommandProcessorContext) (command : Command) : Bool :=
  command.isRequest && command.hasRecordRoute ctx.myHost

/-- A command addressed to this stack. -/
def isMyCommand (ctx : CommandProcessorContext) (command : Command) : Bool :=
  command.getDestinationHost.getD "" == ctx.myHost &&
    command.getDestinationRealm.getD "" == ctx.myRealm

/-- Answer a looped request with DIAMETER_LOOP_DETECTED. -/
def rejectLoopedRequest (ctx : CommandProcessorContext) (command : Command) :
    Proc (Except String Unit) := do
  let response := command.createResponse
  let response := response.setOriginHost ctx.myHost
  let response := response.setOriginRealm ctx.myRealm
  let response := response.setResultCode ResultCode.diameterLoopDetected.asU32
  let sent ← sendResponse ctx.connectionId (command.getOriginHost.getD "")
    (command.getOriginRealm.getD "") response
  return sent.mapError fun error => s!"Failed to send response: {error}"

/-- Have the command handled by this stack and send the answer, if there is one. -/
def processLocalCommand (ctx : CommandProcessorContext) (command : Command) :
    Proc (Except String Unit) := do
  match ← await (.handleCommand command) with
  | .ok (some answer) =>
      let sent ← sendResponse ctx.connectionId (answer.getDestinationHost.getD "")
        (answer.getDestinationRealm.getD "") answer
      return sent.mapError fun error => s!"Failed to send answer: {error}"
  | .ok none => return .ok ()
  | .error _ => return .ok ()

/-- The answer of `forward_request` to a request it could not deliver, under the id the
request came with. -/
def undeliverable (ctx : CommandProcessorContext) (request : Command)
    (originalHopByHopId : UInt32) : Command :=
  let answer := request.createResponse
  let answer := answer.setOriginHost ctx.myHost
  let answer := answer.setOriginRealm ctx.myRealm
  let answer := { answer with hopByHopId := originalHopByHopId }
  answer.setResultCode ResultCode.diameterUnableToDeliver.asU32

/-- Forward a request under a fresh hop-by-hop id. -/
def forwardRequest (settings : SendSettings) (ctx : CommandProcessorContext)
    (request : Command) : Proc (Except String Unit) := do
  let request := request.addRecordRoute ctx.myHost
  let originalHopByHopId := request.hopByHopId
  let newHopByHopId ← await .nextId
  let request := { request with hopByHopId := newHopByHopId }
  Proc.addMapping newHopByHopId originalHopByHopId
  Proc.prepareForAnswer newHopByHopId ctx.connectionId ctx.peerHost ctx.peerRealm
  match ← sendRequest settings request with
  | .ok _answer => return .ok ()
  | .error _ =>
      let answer := ctx.undeliverable request originalHopByHopId
      let sent ← sendResponse ctx.connectionId (request.getOriginHost.getD "")
        (request.getOriginRealm.getD "") answer
      return sent.mapError fun error => s!"Failed to send response: {error}"

/-- Bring an answer back to where its request came from, unless that is this stack. -/
def processAnswer (ctx : CommandProcessorContext) (answer : Command) :
    Proc (Except String Unit) := do
  let answer := answer.removeRecordRoute ctx.myHost
  let originalHopByHopId ← await (.removeMapping answer.hopByHopId)
  match ← await (.answerReceived answer) with
  | some (connectionId, answerHost, answerRealm) =>
      if answerHost = ctx.myHost ∧ answerRealm = ctx.myRealm then return .ok ()
      else
        -- without a mapping the answer keeps the id it came with
        let answer := { answer with hopByHopId := originalHopByHopId.getD answer.hopByHopId }
        match ← sendResponse connectionId answerHost answerRealm answer with
        | .ok () => return .ok ()
        | .error _ => return .ok ()
  | none =>
      return .error
        s!"No mapping found for answer with hop-by-hop ID {answer.hopByHopId} and code {answer.code}"

/-- Process an application command received from a peer. -/
def processCommand (settings : SendSettings) (ctx : CommandProcessorContext)
    (command : Command) : Proc (Except String Unit) :=
  if ctx.isLoopedRequest command then ctx.rejectLoopedRequest command
  else if command.isRequest then
    if ctx.isMyCommand command then ctx.processLocalCommand command
    else forwardRequest settings ctx command
  else ctx.processAnswer command

end CommandProcessorContext

end RestDiameterBridge
