import RestDiameterBridge.Transport.Call

/-!
# RestDiameterBridge.Transport.SendRequest

Sending through the connection manager (`send_response`, `send_request` and what they
call in `src/transport/connection_manager.rs`).

`sendRequest` takes its candidate connections once and tries them in turn, each attempt
under its own timeout and all of them under the total one; a retryable result code or a
redirect goes on with other connections. It returns the answer that settled the request,
or an error. `sendRequest_uses` says which calls it can make: it waits for answers and
sends the request, but never an answer.
-/

namespace RestDiameterBridge

/-- The settings of the connection manager, times in milliseconds. -/
structure SendSettings where
  perConnTimeout : Nat
  totalTimeout : Nat
  retryableResultCodes : List UInt32
  deriving Repr

/-- Send a response on the connection with the given id, or on that of its peer. -/
def sendResponse (connectionId host realm : String) (response : Command) :
    Proc (Except String Unit) := do
  let connection ← match ← await (.getConnectionById connectionId) with
    | some connection => pure (some connection)
    | none => await (.getConnectionByHostRealm host realm)
  match connection with
  | some connection => await (.send connection response)
  | none => return .error "No available connection found"

/-- `AnswerManager::wait_answer` under a timeout. -/
def waitAnswer (deadline : Nat) (hopByHopId : UInt32) : Proc (Option (Option Command)) := do
  match ← await (.getAnswerInfo hopByHopId) with
  | some info => await (.notified deadline hopByHopId info)
  | none => return some none

/-- Send the request on one connection and wait for its answer, under a timeout: `none`
is the elapsed timeout. -/
def sendRequestCommand (deadline : Nat) (request : Command) (conn : Connection) :
    Proc (Option (Except String Command)) := do
  match ← await (.sendWithin deadline conn request) with
  | some (.ok ()) =>
      match ← waitAnswer deadline request.hopByHopId with
      | some (some answer) => return some (.ok answer)
      | some none =>
          return some (.error
            s!"No answer received for command with hop-by-hop ID {request.hopByHopId}")
      | none => return none
  | some (.error e) => return some (.error e)
  | none => return none

/-- One attempt. A retryable result code is an error. -/
def sendRequestWithTimeout (settings : SendSettings) (request : Command) (conn : Connection)
    (timeoutTime : Nat) : Proc (Except String Command) := do
  let remaining := timeoutTime - (← await .now)
  if remaining = 0 then return .error "Total timeout reached"
  else
    let perConnTimeout := if remaining < settings.perConnTimeout then remaining
      else settings.perConnTimeout
    let deadline := (← await .now) + perConnTimeout
    match ← sendRequestCommand deadline request conn with
    | some (.ok answer) =>
        let resultCode := answer.getResultCode.getD ResultCode.diameterSuccess.asU32
        if settings.retryableResultCodes.contains resultCode then
          return .error
            s!"Connection {conn.self.id} returned retryable result code: {resultCode}"
        else return .ok answer
    | some (.error e) => return .error e
    | none => return .error s!"Connection {conn.self.id} timed out after {perConnTimeout}ms"

/-- The loop of `redirect_request` over the connections of the redirect hosts. -/
def redirectRequest (settings : SendSettings) (request : Command) (timeoutTime : Nat) :
    List Connection → Proc (Except String Command)
  | [] => return .error "Fail to send command after redirect"
  | conn :: conns => do
      match ← sendRequestWithTimeout settings request conn timeoutTime with
      | .ok answer => return .ok answer
      | .error _ =>
          if timeoutTime ≤ (← await .now) then return .error "Total timeout reached"
          else redirectRequest settings request timeoutTime conns

/-- The loop of `send_request` over its candidates. -/
def sendRequestVia (settings : SendSettings) (request : Command) (timeoutTime : Nat) :
    List Connection → Proc (Except String Command)
  | [] => return .error "Fail to send command"
  | conn :: conns => do
      let tryNext : Proc (Except String Command) := do
        if timeoutTime ≤ (← await .now) then return .error "Total timeout reached"
        else sendRequestVia settings request timeoutTime conns
      match ← sendRequestWithTimeout settings request conn timeoutTime with
      | .ok answer =>
          let resultCode := answer.getResultCode.getD ResultCode.diameterSuccess.asU32
          if resultCode = ResultCode.diameterRedirectIndication.asU32 then
            await (.addRedirect answer)
            match answer.getRedirectHosts with
            | some redirectHosts =>
                match ← await (.getConnectionsByHosts redirectHosts) with
                | some connections => redirectRequest settings request timeoutTime connections
                | none => return .error "No available connections found for redirect hosts"
            | none => tryNext
          else return .ok answer
      | .error _ => tryNext

/-- Send a request and return the answer to it. -/
def sendRequest (settings : SendSettings) (request : Command) :
    Proc (Except String Command) := do
  match ← await (.getConnectionsForRequest request) with
  | .ok connections =>
      let timeoutTime := (← await .now) + settings.totalTimeout
      sendRequestVia settings request timeoutTime connections
  | .error e => return .error e

/-! ### The calls of `sendRequest` -/

/-- Calls `sendRequest` makes: it sends nothing but the request. -/
def Call.Sends (request : Command) : Call → Prop
  | sendWithin _ _ command => command = request
  | notified _ hopByHopId _ | getAnswerInfo hopByHopId => hopByHopId = request.hopByHopId
  | now | getConnectionsForRequest _ | getConnectionsByHosts _ | addRedirect _ => True
  | _ => False

/-- Calls it makes once it has its candidates. -/
def Call.Tries (request : Command) : Call → Prop
  | getConnectionsForRequest _ => False
  | c => c.Sends request

theorem Call.Tries.sends {request : Command} {c : Call} (h : c.Tries request) :
    c.Sends request := by
  cases c <;> first | exact h | exact trivial

section
variable {settings : SendSettings} {request : Command} {conn : Connection}

theorem sendRequestCommand_uses {deadline : Nat} :
    (sendRequestCommand deadline request conn).Uses (Call.Tries request) := by
  refine ⟨rfl, fun sent => ?_⟩
  match sent with
  | none | some (.error _) => exact trivial
  | some (.ok ()) =>
    refine ⟨rfl, fun info => ?_⟩
    match info with
    | none => exact trivial
    | some info =>
      refine ⟨rfl, fun answer => ?_⟩
      match answer with
      | none | some none | some (some _) => exact trivial

theorem sendRequestWithTimeout_uses {timeoutTime : Nat} :
    (sendRequestWithTimeout settings request conn timeoutTime).Uses (Call.Tries request) := by
  refine ⟨trivial, fun start => ?_⟩
  show Program.Uses _ (if timeoutTime - start = 0 then _ else _)
  split
  · exact trivial
  · refine ⟨trivial, fun now => sendRequestCommand_uses.bind fun result => ?_⟩
    match result with
    | none | some (.error _) => exact trivial
    | some (.ok answer) =>
      dsimp only
      split <;> exact trivial

theorem redirectRequest_uses {timeoutTime : Nat} (conns : List Connection) :
    (redirectRequest settings request timeoutTime conns).Uses (Call.Tries request) := by
  induction conns with
  | nil => exact trivial
  | cons conn conns ih =>
    refine sendRequestWithTimeout_uses.bind fun result => ?_
    match result with
    | .ok _ => exact trivial
    | .error _ =>
      refine ⟨trivial, fun now => ?_⟩
      show Program.Uses _ (if timeoutTime ≤ now then _ else _)
      split
      · exact trivial
      · exact ih

theorem sendRequestVia_uses {timeoutTime : Nat} (conns : List Connection) :
    (sendRequestVia settings request timeoutTime conns).Uses (Call.Tries request) := by
  induction conns with
  | nil => exact trivial
  | cons conn conns ih =>
    have htryNext : Program.Uses (Call.Tries request) (do
        if timeoutTime ≤ (← await .now) then return .error "Total timeout reached"
        else sendRequestVia settings request timeoutTime conns) := by
      refine ⟨trivial, fun now => ?_⟩
      show Program.Uses _ (if timeoutTime ≤ now then _ else _)
      split
      · exact trivial
      · exact ih
    refine sendRequestWithTimeout_uses.bind fun result => ?_
    match result with
    | .error _ => exact htryNext
    | .ok answer =>
      dsimp only
      split
      · refine ⟨trivial, fun _ => ?_⟩
        -- the list of redirect hosts is always present
        refine ⟨trivial, fun connections => ?_⟩
        match connections with
        | none => exact trivial
        | some connections => exact redirectRequest_uses connections
      · exact trivial

theorem sendRequest_uses : (sendRequest settings request).Uses (Call.Sends request) := by
  refine ⟨trivial, fun candidates => ?_⟩
  match candidates with
  | .error _ => exact trivial
  | .ok connections =>
    exact ⟨trivial, fun _ => (sendRequestVia_uses connections).mono fun _ => Call.Tries.sends⟩

end

end RestDiameterBridge
