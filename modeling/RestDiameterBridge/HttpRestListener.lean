import RestDiameterBridge.Transport.SendRequest

/-!
# RestDiameterBridge.HttpRestListener

The Diameter side of a REST request (`src/http_rest_listener.rs`): the command read from
the body is sent like a forwarded request, but expects its answer for this stack itself.
-/

namespace RestDiameterBridge

/-- `handle_diameter_request` on the command the body stands for. What is made of the
answer, an HTTP response or a callback, concerns no peer. -/
def handleDiameterRequest (settings : SendSettings) (host realm : String) (command : Command) :
    Proc (Except String Unit) := do
  if command.getDestinationHost.isNone ∨ command.getDestinationRealm.isNone then
    return .error "Diameter message must include Destination-Host and Destination-Realm"
  else
    let command := command.setOriginHost host
    let command := command.setOriginRealm realm
    let hopByHopId ← await .nextId
    let endToEndId ← await .nextEndToEndId
    let command := { command with hopByHopId, endToEndId }
    if !command.isRequest then return .error "Received Diameter message is not a request"
    else
      Proc.prepareForAnswer command.hopByHopId "" host realm
      match ← sendRequest settings command with
      | .ok _answer => return .ok ()
      | .error e => return .error s!"Failed to send Diameter command: {e}"

end RestDiameterBridge
