import RestDiameterBridge.Transport.Exchange

/-!
# RestDiameterBridge.Transport.Course

The whole course of a task's program, with all it hands on: which request it sends, which
response it goes back with, and where to.

`Exchange` says what the programs do to the ids; `Course` is finer, and says at every
`Point` exactly which calls may come next and with which arguments. A program that has
ended has sent what it had to, or found no connection for it (`Point.Ends`).
`Transport.processCommand_keeps` says that every transport keeps to it.
-/

namespace RestDiameterBridge

open Program

/-- A call with its reply. -/
abbrev Event := Sigma Call.Reply

/-- The request as it is forwarded. -/
def Command.forwarded (c : Command) (host : String) (id : UInt32) : Command :=
  { c.addRecordRoute host with hopByHopId := id }

/-- The answer as it is sent on. -/
def Command.returned (c : Command) (host : String) (id : UInt32) : Command :=
  { c.removeRecordRoute host with hopByHopId := id }

/-- The answer to a looped request. -/
def CommandProcessorContext.loopDetected (ctx : CommandProcessorContext) (command : Command) :
    Command :=
  ((command.createResponse.setOriginHost ctx.myHost).setOriginRealm ctx.myRealm).setResultCode
    ResultCode.diameterLoopDetected.asU32

section
variable {ctx : CommandProcessorContext} {command : Command}

theorem answers_loopDetected : (ctx.loopDetected command).Answers command :=
  Command.answers_createResponse.setOrigin.setAvp

theorem answers_undeliverable {host : String} {id : UInt32} :
    (ctx.undeliverable (command.forwarded host id) command.hopByHopId).Answers command := by
  have hresponse : (((command.forwarded host id).createResponse.setOriginHost
      ctx.myHost).setOriginRealm ctx.myRealm).Answers (command.forwarded host id) :=
    Command.answers_createResponse.setOrigin
  obtain ⟨hflag, hcode, -, hend⟩ := hresponse
  exact Command.Answers.setAvp ⟨hflag, hcode, rfl, hend⟩

end

/-- A request of this stack as it is sent. -/
def Command.issued (c : Command) (host realm : String) (hopByHopId endToEndId : UInt32) : Command :=
  { (c.setOriginHost host).setOriginRealm realm with hopByHopId, endToEndId }

/-- How far a program has come, and what it goes on with. -/
inductive Point
  | request (command : Command)
  | drawn (command : Command) (id : UInt32) (cleaning : Cleaning)
  | mapped (command : Command) (id : UInt32) (cleaning : Cleaning)
  /-- The clock has been read for the time limit of the answer. -/
  | timed (command : Command) (id : UInt32) (now : Nat)
  /-- A request is being sent, and its answer waited for. If that fails, a response goes back
  to where the request came from. The last two say which answer info was found last, and
  whether there was an answer in one. -/
  | sending (request : Command) (response : Option Command) (info : Option Nat) (answered : Bool)
  /-- A request of this stack itself. -/
  | own (command : Command)
  | ownDrawn (command : Command) (hopByHopId : UInt32)
  | ownNumbered (command : Command) (hopByHopId endToEndId : UInt32) (cleaning : Cleaning)
  | ownTimed (command : Command) (hopByHopId endToEndId : UInt32) (now : Nat)
  | answer (command : Command)
  /-- The id map has been asked for the original id. -/
  | looked (command : Command) (original : Option UInt32)
  /-- A response is to be sent on the connection with the id, or else on that of the peer. -/
  | responding (connectionId host realm : String) (response : Command)
  | toPeer (host realm : String) (response : Command)
  | found (connection : Connection) (response : Command)
  /-- Control messages. -/
  | control
  | done

/-- Calls of the answers to control requests, and of the control messages of this stack. -/
def Call.Control : Call → Prop
  | nextId | nextEndToEndId | isConnected | write _ | shutdown => True
  | _ => False

/-- Calls that look for a way to send a request. -/
def Call.Routes : Call → Prop
  | now | getConnectionsForRequest _ | getConnectionsByHosts _ | addRedirect _ => True
  | _ => False

/-- Behind the look-up of the connection with the id. -/
def Point.byId (host realm : String) (response : Command) : Option Connection → Point
  | some connection => .found connection response
  | none => .toPeer host realm response

/-- Behind the look-up of the peer's connection. -/
def Point.byPeer (response : Command) : Option Connection → Point
  | some connection => .found connection response
  | none => .done

/-- Behind the command handler. -/
def Point.handled (ctx : CommandProcessorContext) : Except String (Option Command) → Point
  | .ok (some response) => .responding ctx.connectionId (response.getDestinationHost.getD "")
      (response.getDestinationRealm.getD "") response
  | .ok none | .error _ => .done

/-- Behind the matching of an answer. -/
def Point.matched (ctx : CommandProcessorContext) (command : Command) (original : Option UInt32) :
    Option (String × String × String) → Point
  | some (connectionId, host, realm) =>
      if host = ctx.myHost ∧ realm = ctx.myRealm then .done
      else .responding connectionId host realm
        (command.returned ctx.myHost (original.getD command.hopByHopId))
  | none => .done

/-- The calls at each point, and where they lead. -/
inductive Course (ctx : CommandProcessorContext) : Point → (c : Call) → c.Reply → Point → Prop
  | handle {command r} : ctx.isMyCommand command = true →
      Course ctx (.request command) (.handleCommand command) r (.handled ctx r)
  | draw {command id} : ctx.isMyCommand command = false →
      Course ctx (.request command) .nextId id (.drawn command id .start)
  | cleanMappings {command id cleaning cleaning' c r} : CleansMappings cleaning c r cleaning' →
      Course ctx (.drawn command id cleaning) c r (.drawn command id cleaning')
  | addMapping {command id} :
      Course ctx (.drawn command id .done) (.addMapping id command.hopByHopId) ()
        (.mapped command id .start)
  | cleanAnswers {command id cleaning cleaning' c r} : CleansAnswers cleaning c r cleaning' →
      Course ctx (.mapped command id cleaning) c r (.mapped command id cleaning')
  | clock {command id now} :
      Course ctx (.mapped command id .done) .now now (.timed command id now)
  | prepare {command id now} :
      Course ctx (.timed command id now)
        (.prepareForAnswer (now + 60000) id ctx.connectionId ctx.peerHost ctx.peerRealm) ()
        (.sending (command.forwarded ctx.myHost id)
          (some (ctx.undeliverable (command.forwarded ctx.myHost id) command.hopByHopId)) none false)
  | drawOwn {command id} : Course ctx (.own command) .nextId id (.ownDrawn command id)
  | number {command hopByHopId endToEndId} :
      Course ctx (.ownDrawn command hopByHopId) .nextEndToEndId endToEndId
        (.ownNumbered command hopByHopId endToEndId .start)
  | cleanOwn {command hopByHopId endToEndId cleaning cleaning' c r} :
      CleansAnswers cleaning c r cleaning' →
      Course ctx (.ownNumbered command hopByHopId endToEndId cleaning) c r
        (.ownNumbered command hopByHopId endToEndId cleaning')
  | clockOwn {command hopByHopId endToEndId now} :
      Course ctx (.ownNumbered command hopByHopId endToEndId .done) .now now
        (.ownTimed command hopByHopId endToEndId now)
  | prepareOwn {command hopByHopId endToEndId now} :
      Course ctx (.ownTimed command hopByHopId endToEndId now)
        (.prepareForAnswer (now + 60000) hopByHopId "" ctx.myHost ctx.myRealm) ()
        (.sending (command.issued ctx.myHost ctx.myRealm hopByHopId endToEndId) none none false)
  | route {request response info answered c r} : c.Routes →
      Course ctx (.sending request response info answered) c r
        (.sending request response info answered)
  | attempt {request response info answered deadline connection r} :
      Course ctx (.sending request response info answered) (.sendWithin deadline connection request) r
        (.sending request response info answered)
  | findInfo {request response info answered} {r : Option Nat} :
      Course ctx (.sending request response info answered) (.getAnswerInfo request.hopByHopId) r
        (.sending request response r answered)
  | wait {request response info answered deadline} {r : Option (Option Command)} :
      Course ctx (.sending request response (some info) answered)
        (.notified deadline request.hopByHopId info) r
        (.sending request response (some info) (answered || r.join.isSome))
  | giveUp {request response info answered r} :
      Course ctx (.sending request (some response) info answered)
        (.getConnectionById ctx.connectionId) r
        (.byId (request.getOriginHost.getD "") (request.getOriginRealm.getD "") response r)
  | lookUp {command original} :
      Course ctx (.answer command) (.removeMapping command.hopByHopId) original
        (.looked command original)
  | match {command original r} :
      Course ctx (.looked command original)
        (.answerReceived (command.removeRecordRoute ctx.myHost)) r (.matched ctx command original r)
  | findById {connectionId host realm response r} :
      Course ctx (.responding connectionId host realm response) (.getConnectionById connectionId) r
        (.byId host realm response r)
  | findByPeer {host realm response r} :
      Course ctx (.toPeer host realm response) (.getConnectionByHostRealm host realm) r
        (.byPeer response r)
  | respond {connection response r} :
      Course ctx (.found connection response) (.send connection response) r .done
  | control {c r} : c.Control → Course ctx .control c r .control

/-- Where a program may end: when nothing is left to be sent. A request whose sending has not
failed has been answered. -/
def Point.Ends : Point → Except String Unit → Prop
  | .sending _ response _ answered, result => (result = .ok () ∧ answered = true) ∨ response = none
  | .own _, _ | .ownNumbered _ _ _ .start, _ | .control, _ | .done, _ => True
  | _, _ => False

/-- No command that the transports treat themselves. -/
def Command.IsApplication (c : Command) : Prop :=
  c.code ≠ CommandCode.deviceWatchdog.asU32 ∧ c.code ≠ CommandCode.disconnectPeer.asU32

/-- Where a program of a transport starts. -/
def Point.start (ctx : CommandProcessorContext) (transport : Transport) (command : Command) : Point :=
  if transport = .rest then .own command
  else if (command.code = CommandCode.deviceWatchdog.asU32 ∧
      (command.isRequest = true ∨ transport.isClient = true)) ∨
      (command.code = CommandCode.disconnectPeer.asU32 ∧ command.isRequest = true) then .control
  else if ctx.isLoopedRequest command then
    .responding ctx.connectionId (command.getOriginHost.getD "") (command.getOriginRealm.getD "")
      (ctx.loopDetected command)
  else if command.isRequest then .request command
  else .answer command

/-- A program that keeps to the course. -/
abbrev Keeps (ctx : CommandProcessorContext) (p : Point) (program : Proc (Except String Unit)) :
    Prop :=
  Follows (Course ctx) Point.Ends p program

/-! ### Sending a request -/

section
variable {settings : SendSettings} {ctx : CommandProcessorContext} {request : Command}
  {response : Option Command} {info : Option Nat} {answered : Bool} {deadline timeoutTime : Nat}

/-- The request is still being sent; a good result comes from an answer. -/
def Point.Sent {α : Type} (request : Command) (response : Option Command) (good : α → Prop)
    (p : Point) (a : α) : Prop :=
  ∃ info answered, p = .sending request response info answered ∧ (good a → answered = true)

/-- A part of a program that is sending a request. -/
abbrev Sends {α : Type} (ctx : CommandProcessorContext) (request : Command)
    (response : Option Command) (info : Option Nat) (answered : Bool) (good : α → Prop)
    (p : Proc α) : Prop :=
  Follows (Course ctx) (Point.Sent request response good) (.sending request response info answered) p

theorem sends_ret {α : Type} {good : α → Prop} {a : α} (h : good a → answered = true) :
    Sends ctx request response info answered good (.ret a) := ⟨info, answered, rfl, h⟩

/-- Looking for a way keeps the point. -/
theorem sends_route {α : Type} {good : α → Prop} {c : Call} {next : c.Reply → Proc α}
    (hc : c.Routes) (h : ∀ r, Sends ctx request response info answered good (next r)) :
    Sends ctx request response info answered good (.call c next) :=
  fun r => ⟨_, .route hc, h r⟩

/-- Going on after a part. -/
theorem Sends.bind {α β : Type} {good : α → Prop} {good' : β → Prop} {p : Proc α} {f : α → Proc β}
    (hp : Sends ctx request response info answered good p)
    (hf : ∀ info answered a, (good a → answered = true) →
      Sends ctx request response info answered good' (f a)) :
    Sends ctx request response info answered good' (p >>= f) := by
  refine Follows.bind hp fun p a hsent => ?_
  obtain ⟨info, answered, rfl, hgood⟩ := hsent
  exact hf info answered a hgood

theorem sendRequestCommand_sends {conn : Connection} :
    Sends ctx request response info answered (fun r => ∃ a, r = some (.ok a))
      (sendRequestCommand deadline request conn) := by
  intro sent
  refine ⟨_, .attempt, ?_⟩
  match sent with
  | none | some (.error _) => exact sends_ret fun hgood => by simp at hgood
  | some (.ok ()) =>
    refine fun found => ⟨_, .findInfo, ?_⟩
    match found with
    | none => exact sends_ret fun hgood => by simp at hgood
    | some info =>
      refine fun answer => ⟨_, .wait, ?_⟩
      match answer with
      | none | some none => exact sends_ret fun hgood => by simp at hgood
      | some (some answer) => exact sends_ret fun _ => by simp

theorem sendRequestWithTimeout_sends {conn : Connection} :
    Sends ctx request response info answered (fun r => ∃ a, r = .ok a)
      (sendRequestWithTimeout settings request conn timeoutTime) := by
  refine sends_route trivial fun start => ?_
  show Sends _ _ _ _ _ _ (if timeoutTime - start = 0 then _ else _)
  split
  · exact sends_ret fun hgood => by simp at hgood
  · refine sends_route trivial fun now => sendRequestCommand_sends.bind fun info answered result h => ?_
    match result with
    | none | some (.error _) => exact sends_ret fun hgood => by simp at hgood
    | some (.ok answer) =>
      dsimp only
      split
      · exact sends_ret fun hgood => by simp at hgood
      · exact sends_ret fun _ => h ⟨answer, rfl⟩

theorem redirectRequest_sends (conns : List Connection) :
    Sends ctx request response info answered (fun r => ∃ a, r = .ok a)
      (redirectRequest settings request timeoutTime conns) := by
  induction conns generalizing info answered with
  | nil => exact sends_ret fun hgood => by simp at hgood
  | cons conn conns ih =>
    refine sendRequestWithTimeout_sends.bind fun info answered result h => ?_
    match result with
    | .ok answer => exact sends_ret fun _ => h ⟨answer, rfl⟩
    | .error _ =>
      refine sends_route trivial fun now => ?_
      show Sends _ _ _ _ _ _ (if timeoutTime ≤ now then _ else _)
      split
      · exact sends_ret fun hgood => by simp at hgood
      · exact ih

theorem sendRequestVia_sends (conns : List Connection) :
    Sends ctx request response info answered (fun r => ∃ a, r = .ok a)
      (sendRequestVia settings request timeoutTime conns) := by
  induction conns generalizing info answered with
  | nil => exact sends_ret fun hgood => by simp at hgood
  | cons conn conns ih =>
    have htryNext : ∀ info answered, Sends ctx request response info answered
        (fun r => ∃ a, r = .ok a) (do
          if timeoutTime ≤ (← await .now) then return .error "Total timeout reached"
          else sendRequestVia settings request timeoutTime conns) := by
      intro info answered
      refine sends_route trivial fun now => ?_
      show Sends _ _ _ _ _ _ (if timeoutTime ≤ now then _ else _)
      split
      · exact sends_ret fun hgood => by simp at hgood
      · exact ih
    refine sendRequestWithTimeout_sends.bind fun info answered result h => ?_
    match result with
    | .error _ => exact htryNext info answered
    | .ok answer =>
      dsimp only
      split
      · refine sends_route trivial fun _ => sends_route trivial fun connections => ?_
        match connections with
        | none => exact sends_ret fun hgood => by simp at hgood
        | some connections => exact redirectRequest_sends connections
      · exact sends_ret fun _ => h ⟨answer, rfl⟩

/-- A request is sent, and a good result is an answer that was waited for. -/
theorem sendRequest_sends :
    Sends ctx request response info answered (fun r => ∃ a, r = .ok a)
      (sendRequest settings request) := by
  refine sends_route trivial fun candidates => ?_
  match candidates with
  | .error _ => exact sends_ret fun hgood => by simp at hgood
  | .ok connections => exact sends_route trivial fun _ => sendRequestVia_sends connections

end

/-! ### The transports -/

section
variable {settings : SendSettings} {ctx : CommandProcessorContext} {command response : Command}
  {connectionId host realm : String}

/-- A response is sent, from a point at which its connection is looked up. -/
theorem keeps_sendResponse {p : Point} {f : Except String Unit → Proc (Except String Unit)}
    (hfirst : ∀ r, Course ctx p (.getConnectionById connectionId) r (.byId host realm response r))
    (hf : ∀ sent, ∃ result, f sent = .ret result) :
    Keeps ctx p (sendResponse connectionId host realm response >>= f) := by
  have hdone : ∀ sent, Keeps ctx .done (f sent) := by
    intro sent
    obtain ⟨result, hresult⟩ := hf sent
    rw [hresult]
    exact trivial
  have hsend : ∀ connection : Connection,
      Keeps ctx (.found connection response) (await (.send connection response) >>= f) :=
    fun connection sent => ⟨_, .respond, hdone sent⟩
  refine fun byId => ⟨_, hfirst byId, ?_⟩
  match byId with
  | some connection => exact hsend connection
  | none =>
    refine fun byPeer => ⟨_, .findByPeer, ?_⟩
    match byPeer with
    | some connection => exact hsend connection
    | none => exact hdone _

/-- A request is sent. -/
theorem keeps_sendRequest {response : Option Command} {f : Except String Command →
    Proc (Except String Unit)}
    (hf : ∀ info answered result, ((∃ a, result = .ok a) → answered = true) →
      Keeps ctx (.sending command response info answered) (f result)) :
    Keeps ctx (.sending command response none false) (sendRequest settings command >>= f) := by
  refine Follows.bind sendRequest_sends fun p result hsent => ?_
  obtain ⟨info, answered, rfl, hgood⟩ := hsent
  exact hf info answered result hgood

theorem forwardRequest_keeps (hmine : ctx.isMyCommand command = false) :
    Keeps ctx (.request command) (CommandProcessorContext.forwardRequest settings ctx command) := by
  refine fun id => ⟨_, .draw hmine, ?_⟩
  refine Proc.follows_addMapping (Point.drawn command id) (fun _ _ _ _ hc => .cleanMappings hc)
    ⟨_, .addMapping, ?_⟩
  refine Proc.follows_prepareForAnswer (Point.mapped command id) (fun _ _ _ _ hc => .cleanAnswers hc)
    fun _ => ⟨_, .clock, _, .prepare, ?_⟩
  refine keeps_sendRequest fun info answered result hgood => ?_
  match result with
  | .ok answer => exact .inl ⟨rfl, hgood ⟨answer, rfl⟩⟩
  | .error _ => exact keeps_sendResponse (fun _ => .giveUp) fun sent => ⟨_, rfl⟩

theorem processAnswer_keeps :
    Keeps ctx (.answer command) (CommandProcessorContext.processAnswer ctx command) := by
  refine fun original => ⟨_, .lookUp, fun origin => ⟨_, .match, ?_⟩⟩
  match origin with
  | none => exact trivial
  | some (connectionId, answerHost, answerRealm) =>
    by_cases hown : answerHost = ctx.myHost ∧ answerRealm = ctx.myRealm
    · show Keeps _ (if _ then _ else _) (if _ then _ else _)
      rw [if_pos hown, if_pos hown]
      exact trivial
    · show Keeps _ (if _ then _ else _) (if _ then _ else _)
      rw [if_neg hown, if_neg hown]
      refine keeps_sendResponse (fun _ => .findById) fun sent => ?_
      match sent with
      | .ok () | .error _ => exact ⟨_, rfl⟩

theorem processCommand_keeps :
    Keeps ctx
      (if ctx.isLoopedRequest command then
        .responding ctx.connectionId (command.getOriginHost.getD "")
          (command.getOriginRealm.getD "") (ctx.loopDetected command)
      else if command.isRequest then .request command
      else .answer command)
      (CommandProcessorContext.processCommand settings ctx command) := by
  unfold CommandProcessorContext.processCommand
  split
  · exact keeps_sendResponse (fun _ => .findById) fun sent => ⟨_, rfl⟩
  · split
    · cases hmine : ctx.isMyCommand command with
      | true =>
        refine fun handled => ⟨_, .handle hmine, ?_⟩
        match handled with
        | .ok (some _) => exact keeps_sendResponse (fun _ => .findById) fun sent => ⟨_, rfl⟩
        | .ok none | .error _ => exact trivial
      | false => exact forwardRequest_keeps hmine
    · exact processAnswer_keeps

/-- Control messages are kept to themselves. -/
theorem keeps_control {p : Proc (Except String Unit)} (hp : p.Uses Call.Control) :
    Keeps ctx .control p := by
  induction p with
  | ret a => exact trivial
  | call c next ih => exact fun r => ⟨_, .control hp.1, ih r (hp.2 r)⟩

theorem handleDiameterRequest_keeps :
    Keeps ctx (.own command) (handleDiameterRequest settings ctx.myHost ctx.myRealm command) := by
  unfold handleDiameterRequest
  split
  · exact trivial
  · refine fun hopByHopId => ⟨_, .drawOwn, fun endToEndId => ⟨_, .number, ?_⟩⟩
    show Keeps _ _ (if _ then _ else _)
    split
    · exact trivial
    · refine Proc.follows_prepareForAnswer (Point.ownNumbered command hopByHopId endToEndId)
        (fun _ _ _ _ hc => .cleanOwn hc) fun _ => ⟨_, .clockOwn, _, .prepareOwn,
          keeps_sendRequest fun info answered result _ => ?_⟩
      match result with
      | .ok _ | .error _ => exact .inr rfl

/-- A control message under fresh ids. -/
theorem writeControl_uses {message : UInt32 → UInt32 → Command} :
    (do
      let hopByHopId ← await .nextId
      let endToEndId ← await .nextEndToEndId
      await (.write (message hopByHopId endToEndId)) : Proc (Except String Unit)).Uses
        Call.Control :=
  ⟨trivial, fun _ => ⟨trivial, fun _ => ⟨trivial, fun _ => trivial⟩⟩⟩

theorem tcpClient_processDpr_uses :
    (TcpClientConnection.processDpr ctx command).Uses Call.Control := by
  refine ⟨trivial, fun connected => ?_⟩
  match connected with
  | false => exact trivial
  | true =>
    refine ⟨trivial, fun written => ?_⟩
    match written with
    | .error _ => exact trivial
    | .ok () =>
      refine ⟨trivial, fun _ => ⟨trivial, fun _ => ⟨trivial, fun sent => ?_⟩⟩⟩
      match sent with
      | .ok () => exact ⟨trivial, fun _ => trivial⟩
      | .error _ => exact trivial

theorem tcpServer_processDpr_uses :
    (TcpServerConnection.processDpr ctx command).Uses Call.Control := by
  refine ⟨trivial, fun written => ?_⟩
  match written with
  | .ok () => exact ⟨trivial, fun _ => trivial⟩
  | .error _ => exact trivial

/-- What a client does with a command: control commands it treats itself, whatever it does
with a request of a watchdog or a disconnect. -/
theorem keeps_client {sendDwa processDpr : Proc (Except String Unit)} {transport : Transport}
    (hclient : transport.isClient = true) (hdwa : sendDwa.Uses Call.Control)
    (hdpr : processDpr.Uses Call.Control) :
    Keeps ctx (.start ctx transport command)
      (if command.code = CommandCode.deviceWatchdog.asU32 then
        if command.isRequest then sendDwa else return .ok ()
      else if command.code = CommandCode.disconnectPeer.asU32 ∧ command.isRequest then processDpr
      else CommandProcessorContext.processCommand settings ctx command) := by
  have hrest : transport ≠ .rest := by
    intro hrest
    subst hrest
    cases hclient
  unfold Point.start
  rw [if_neg hrest]
  by_cases hwatchdog : command.code = CommandCode.deviceWatchdog.asU32
  · rw [if_pos hwatchdog, if_pos (.inl ⟨hwatchdog, .inr hclient⟩)]
    split
    · exact keeps_control hdwa
    · exact trivial
  · rw [if_neg hwatchdog]
    by_cases hdisconnect : command.code = CommandCode.disconnectPeer.asU32 ∧ command.isRequest = true
    · rw [if_pos hdisconnect, if_pos (.inr hdisconnect)]
      exact keeps_control hdpr
    · rw [if_neg hdisconnect, if_neg (by simp [hwatchdog, hdisconnect])]
      exact processCommand_keeps

/-- What a server does with a command. -/
theorem keeps_server {processDwr processDpr : Proc (Except String Unit)} {transport : Transport}
    (hserver : transport.isClient = false) (hrest : transport ≠ .rest)
    (hdwr : processDwr.Uses Call.Control) (hdpr : processDpr.Uses Call.Control) :
    Keeps ctx (.start ctx transport command)
      (if command.code = CommandCode.deviceWatchdog.asU32 ∧ command.isRequest then processDwr
      else if command.code = CommandCode.disconnectPeer.asU32 ∧ command.isRequest then processDpr
      else CommandProcessorContext.processCommand settings ctx command) := by
  unfold Point.start
  rw [if_neg hrest]
  by_cases hwatchdog : command.code = CommandCode.deviceWatchdog.asU32 ∧ command.isRequest = true
  · rw [if_pos hwatchdog, if_pos (.inl ⟨hwatchdog.1, .inl hwatchdog.2⟩)]
    exact keeps_control hdwr
  · rw [if_neg hwatchdog]
    by_cases hdisconnect : command.code = CommandCode.disconnectPeer.asU32 ∧ command.isRequest = true
    · rw [if_pos hdisconnect, if_pos (.inr hdisconnect)]
      exact keeps_control hdpr
    · rw [if_neg hdisconnect, if_neg (by simp [hserver, hwatchdog, hdisconnect])]
      exact processCommand_keeps

/-- **Every transport keeps to the course on every command.** -/
theorem Transport.processCommand_keeps (transport : Transport) :
    Keeps ctx (.start ctx transport command) (transport.processCommand settings ctx command) := by
  cases transport with
  | tcpClient => exact keeps_client rfl writeControl_uses tcpClient_processDpr_uses
  | tcpServer =>
    exact keeps_server rfl (by simp) ⟨trivial, fun _ => trivial⟩ tcpServer_processDpr_uses
  | sctpClient => exact keeps_client rfl writeControl_uses ⟨trivial, fun _ => trivial⟩
  | sctpServer =>
    exact keeps_server rfl (by simp) ⟨trivial, fun _ => trivial⟩ tcpServer_processDpr_uses
  | rest => exact handleDiameterRequest_keeps

/-- So does the watchdog of the clients. -/
theorem Transport.sendDwr_keeps {transport : Transport} {p : Proc (Except String Unit)}
    (h : transport.sendDwr ctx = some p) : Keeps ctx .control p := by
  cases transport with
  | tcpClient | sctpClient =>
    obtain rfl := Option.some.inj h
    exact keeps_control writeControl_uses
  | tcpServer | sctpServer | rest => cases h

end

/-! ### Along a course -/

/-- The calls of `send_response`. -/
def Call.Responds (connectionId host realm : String) (response : Command) : Call → Prop
  | getConnectionById id => id = connectionId
  | getConnectionByHostRealm host' realm' => host' = host ∧ realm' = realm
  | send _ command => command = response
  | _ => False

section
variable {ctx : CommandProcessorContext} {command request response : Command}
  {connectionId host realm : String} {trace : List Event} {p : Point}

theorem path_done (h : Path (Course ctx) .done trace p) : trace = [] ∧ p = .done := by
  cases h with
  | refl => exact ⟨rfl, rfl⟩
  | cons hstep => cases hstep

theorem path_control (h : Path (Course ctx) .control trace p) :
    p = .control ∧ ∀ e ∈ trace, e.1.Control := by
  induction trace with
  | nil => exact ⟨path_nil.mp h, fun e he => absurd he List.not_mem_nil⟩
  | cons e trace ih =>
    obtain ⟨t, hstep, hrest⟩ := path_cons.mp h
    cases hstep with
    | control hc =>
      obtain ⟨hp, hall⟩ := ih hrest
      exact ⟨hp, List.forall_mem_cons.mpr ⟨hc, hall⟩⟩

/-- Once its connection is found, a response is sent on it, once. -/
theorem path_found {connection : Connection}
    (h : Path (Course ctx) (.found connection response) trace p) :
    (trace = [] ∧ p = .found connection response) ∨
      ∃ sent, trace = [⟨.send connection response, sent⟩] ∧ p = .done := by
  cases h with
  | refl => exact .inl ⟨rfl, rfl⟩
  | cons hstep hrest =>
    cases hstep with
    | respond =>
      obtain ⟨rfl, rfl⟩ := path_done hrest
      exact .inr ⟨_, rfl, rfl⟩

/-- Nothing comes after a response. -/
theorem path_send_last {q : Point} (h : Path (Course ctx) q trace p) :
    trace.Pairwise fun e _ => ∀ connection response sent,
      e ≠ ⟨.send connection response, sent⟩ := by
  induction trace generalizing q with
  | nil => exact .nil
  | cons e trace ih =>
    obtain ⟨t, hstep, hrest⟩ := path_cons.mp h
    refine List.Pairwise.cons (fun e' he' connection response sent heq => ?_) (ih hrest)
    subst heq
    cases hstep with
    | respond =>
      obtain ⟨rfl, -⟩ := path_done hrest
      cases he'
    | control hcall | route hcall => exact hcall
    | cleanMappings hclean | cleanAnswers hclean | cleanOwn hclean => cases hclean

/-- The connection a response goes to: the one with the id, or else that of the peer. -/
def Target (connectionId host realm : String) (trace : List Event) (connection : Connection) : Prop :=
  ⟨.getConnectionById connectionId, some connection⟩ ∈ trace ∨
    (⟨.getConnectionById connectionId, none⟩ ∈ trace ∧
      ⟨.getConnectionByHostRealm host realm, some connection⟩ ∈ trace)

theorem Target.mono {connection : Connection} {trace' : List Event}
    (h : Target connectionId host realm trace connection) (hsub : trace ⊆ trace') :
    Target connectionId host realm trace' connection :=
  h.imp (fun hfound => hsub hfound) fun hother => ⟨hsub hother.1, hsub hother.2⟩

/-- What a response leaves in a trace, from a point at which its connection is looked up. -/
structure Responded (connectionId host realm : String) (response : Command) (trace : List Event)
    (p : Point) : Prop where
  calls : ∀ e ∈ trace, e.1.Responds connectionId host realm response
  target : ∀ connection response' sent, ⟨.send connection response', sent⟩ ∈ trace →
    response' = response ∧ Target connectionId host realm trace connection
  /-- A response that has found its connection has been sent when the program ends. -/
  ends : ∀ result, p.Ends result → ∃ byId, ⟨.getConnectionById connectionId, byId⟩ ∈ trace ∧
    ∀ connection, byId = some connection → ∃ sent, ⟨.send connection response, sent⟩ ∈ trace

theorem responded_byId {byId : Option Connection}
    (h : Path (Course ctx) (.byId host realm response byId) trace p) :
    Responded connectionId host realm response
      (⟨.getConnectionById connectionId, byId⟩ :: trace) p := by
  match byId with
  | some connection =>
    rcases path_found h with ⟨rfl, rfl⟩ | ⟨sent, rfl, rfl⟩
    · exact ⟨by simp [Call.Responds], by simp, fun _ hends => hends.elim⟩
    · refine ⟨by simp [Call.Responds], ?_, fun _ _ => ⟨_, List.mem_cons_self, ?_⟩⟩
      · intro connection' response' sent' hmem
        simp only [List.mem_cons, List.not_mem_nil, or_false] at hmem
        rcases hmem with heq | heq
        · cases heq
        · cases heq
          exact ⟨rfl, .inl List.mem_cons_self⟩
      · intro connection' heq
        cases heq
        exact ⟨sent, by simp⟩
  | none =>
    have hnone : ∀ {trace : List Event}, ∃ byId,
        (⟨.getConnectionById connectionId, byId⟩ : Event) ∈
            (⟨.getConnectionById connectionId, none⟩ : Event) :: trace ∧
          ∀ connection, byId = some connection → ∃ sent, (⟨.send connection response, sent⟩ : Event) ∈
            (⟨.getConnectionById connectionId, none⟩ : Event) :: trace :=
      ⟨none, List.mem_cons_self, fun _ h => by cases h⟩
    cases h with
    | refl => exact ⟨by simp [Call.Responds], by simp, fun _ hends => hends.elim⟩
    | cons hstep hrest =>
      cases hstep with
      | @findByPeer _ _ _ byPeer =>
        match byPeer with
        | none =>
          obtain ⟨rfl, rfl⟩ := path_done hrest
          exact ⟨by simp [Call.Responds], by simp, fun _ _ => hnone⟩
        | some connection =>
          rcases path_found hrest with ⟨rfl, rfl⟩ | ⟨sent, rfl, rfl⟩
          · exact ⟨by simp [Call.Responds], by simp, fun _ hends => hends.elim⟩
          · refine ⟨by simp [Call.Responds], ?_, fun _ _ => hnone⟩
            intro connection' response' sent' hmem
            simp only [List.mem_cons, List.not_mem_nil, or_false] at hmem
            rcases hmem with heq | heq | heq
            · cases heq
            · cases heq
            · cases heq
              exact ⟨rfl, .inr ⟨by simp, by simp⟩⟩

/-- What sending a request leaves in a trace. -/
structure Sent (request : Command) (info : Option Nat) (answered : Bool) (trace : List Event)
    (info' : Option Nat) (answered' : Bool) : Prop where
  calls : ∀ e ∈ trace, e.1.Sends request
  found : ∀ i, info' = some i → info = some i ∨ ⟨.getAnswerInfo request.hopByHopId, some i⟩ ∈ trace
  waited : ∀ deadline i r, ⟨.notified deadline request.hopByHopId i, r⟩ ∈ trace →
    info = some i ∨ ⟨.getAnswerInfo request.hopByHopId, some i⟩ ∈ trace
  answered : answered' = true → answered = true ∨ ∃ deadline i a,
    ⟨.notified deadline request.hopByHopId i, some (some a)⟩ ∈ trace

/-- One more call before it. -/
theorem Sent.cons {info info' info'' : Option Nat} {answered answered' answered'' : Bool} {e : Event}
    (h : Sent request info' answered' trace info'' answered'') (hcall : e.1.Sends request)
    (hfound : ∀ i, info' = some i → info = some i ∨ e = ⟨.getAnswerInfo request.hopByHopId, some i⟩)
    (hwaited : ∀ deadline i r, e = ⟨.notified deadline request.hopByHopId i, r⟩ → info = some i)
    (hanswered : answered' = true → answered = true ∨ ∃ deadline i a,
      e = ⟨.notified deadline request.hopByHopId i, some (some a)⟩) :
    Sent request info answered (e :: trace) info'' answered'' where
  calls := List.forall_mem_cons.mpr ⟨hcall, h.calls⟩
  found i hi := by
    rcases h.found i hi with hinfo | hmem
    · rcases hfound i hinfo with hstart | rfl
      · exact .inl hstart
      · exact .inr List.mem_cons_self
    · exact .inr (List.mem_cons_of_mem _ hmem)
  waited deadline i r hmem := by
    rcases List.mem_cons.mp hmem with heq | hmem
    · exact .inl (hwaited deadline i r heq.symm)
    · rcases h.waited deadline i r hmem with hinfo | hmem
      · rcases hfound i hinfo with hstart | rfl
        · exact .inl hstart
        · exact .inr List.mem_cons_self
      · exact .inr (List.mem_cons_of_mem _ hmem)
  answered h' := by
    rcases h.answered h' with hbefore | ⟨deadline, i, a, hmem⟩
    · rcases hanswered hbefore with hstart | ⟨deadline, i, a, rfl⟩
      · exact .inl hstart
      · exact .inr ⟨deadline, i, a, List.mem_cons_self⟩
    · exact .inr ⟨deadline, i, a, List.mem_cons_of_mem _ hmem⟩

/-- How far sending a request has come: it goes on, or it has been given up and the response
goes back. -/
inductive Sending (ctx : CommandProcessorContext) (request : Command) (reply : Option Command)
    (info : Option Nat) (answered : Bool) : List Event → Point → Prop
  | goesOn {trace info' answered'} : Sent request info answered trace info' answered' →
      Sending ctx request reply info answered trace (.sending request reply info' answered')
  | givenUp {before after info' answered' response byId p} : reply = some response →
      Sent request info answered before info' answered' →
      Path (Course ctx) (.byId (request.getOriginHost.getD "") (request.getOriginRealm.getD "")
        response byId) after p →
      Sending ctx request reply info answered
        (before ++ ⟨.getConnectionById ctx.connectionId, byId⟩ :: after) p

theorem path_sending {reply : Option Command} {info : Option Nat} {answered : Bool}
    (h : Path (Course ctx) (.sending request reply info answered) trace p) :
    Sending ctx request reply info answered trace p := by
  have hnil : ∀ {info : Option Nat} {answered : Bool}, Sent request info answered [] info answered :=
    ⟨by simp, by simp, by simp, .inl⟩
  induction trace generalizing info answered with
  | nil =>
    obtain rfl := path_nil.mp h
    exact .goesOn hnil
  | cons e trace ih =>
    obtain ⟨t, hstep, hrest⟩ := path_cons.mp h
    have hcons : ∀ {info' : Option Nat} {answered' : Bool}, e.1.Sends request →
        (∀ i, info' = some i → info = some i ∨ e = ⟨.getAnswerInfo request.hopByHopId, some i⟩) →
        (∀ deadline i r, e = ⟨.notified deadline request.hopByHopId i, r⟩ → info = some i) →
        (answered' = true → answered = true ∨ ∃ deadline i a,
          e = ⟨.notified deadline request.hopByHopId i, some (some a)⟩) →
        Sending ctx request reply info' answered' trace p →
        Sending ctx request reply info answered (e :: trace) p := by
      intro info' answered' hcall hfound hwaited hanswered hsending
      cases hsending with
      | goesOn hsent => exact .goesOn (hsent.cons hcall hfound hwaited hanswered)
      | givenUp hreply hsent hafter =>
        exact .givenUp hreply (hsent.cons hcall hfound hwaited hanswered) hafter
    obtain ⟨c, r⟩ := e
    cases hstep with
    | route hc =>
      have hsends : c.Sends request := by
        cases c with
        | now | getConnectionsForRequest _ | getConnectionsByHosts _ | addRedirect _ => exact trivial
        | _ => exact hc.elim
      refine hcons hsends (fun i hi => .inl hi) (fun deadline i r heq => ?_) .inl (ih hrest)
      cases heq
      exact hc.elim
    | attempt =>
      exact hcons rfl (fun i hi => .inl hi) (fun _ _ _ heq => by cases heq) .inl (ih hrest)
    | findInfo =>
      refine hcons rfl (fun i hi => .inr ?_) (fun _ _ _ heq => by cases heq) .inl (ih hrest)
      obtain rfl : r = some i := hi
      rfl
    | @wait _ _ info _ deadline =>
      refine hcons rfl (fun i hi => .inl hi) (fun _ i _ heq => ?_) (fun hor => ?_) (ih hrest)
      · cases heq
        rfl
      · rcases Bool.or_eq_true_iff.mp hor with hbefore | hsome
        · exact .inl hbefore
        · match r with
          | some (some a) => exact .inr ⟨deadline, info, a, rfl⟩
    | giveUp => exact @Sending.givenUp ctx request _ info answered [] _ _ _ _ _ _ rfl hnil hrest

/-- A call for sending a request. A wait is for an info that has been found. -/
structure SendEvent (request : Command) (trace : List Event) (e : Event) : Prop where
  call : e.1.Sends request
  waited : ∀ deadline id info r, e = ⟨.notified deadline id info, r⟩ →
    ⟨.getAnswerInfo id, some info⟩ ∈ trace

theorem SendEvent.mono {trace' : List Event} {e : Event} (h : SendEvent request trace e)
    (hsub : trace ⊆ trace') : SendEvent request trace' e :=
  ⟨h.call, fun deadline id info r heq => hsub (h.waited deadline id info r heq)⟩

theorem Sent.event {answered answered' : Bool} {info' : Option Nat} {e : Event}
    (h : Sent request none answered trace info' answered') (he : e ∈ trace) :
    SendEvent request trace e := by
  refine ⟨h.calls e he, fun deadline id info r heq => ?_⟩
  subst heq
  obtain rfl : id = request.hopByHopId := h.calls _ he
  exact (h.waited deadline info r he).resolve_left (by simp)

/-- The calls before the mapping is in. -/
inductive MappingSwept : List Event → Prop
  | early {now : Nat} : MappingSwept [⟨.now, now⟩, ⟨.mappingsDue now, false⟩]
  | due {now : Nat} : MappingSwept [⟨.now, now⟩, ⟨.mappingsDue now, true⟩, ⟨.dropMappings, ()⟩]

/-- The calls before the answer is prepared for, with the clock as it was read for its limit. -/
inductive Preparing (now : Nat) : List Event → Prop
  | early {asked : Nat} : Preparing now [⟨.now, asked⟩, ⟨.answersDue asked, false⟩, ⟨.now, now⟩]
  | due {asked : Nat} : Preparing now
      [⟨.now, asked⟩, ⟨.answersDue asked, true⟩, ⟨.dropAnswers, ()⟩, ⟨.now, now⟩]

/-- Calls of a clean-up. -/
def CleanUp (trace : List Event) : Prop := ∀ e ∈ trace, e.1.CleansUp

theorem MappingSwept.cleanUp (h : MappingSwept trace) : CleanUp trace := by
  cases h <;> simp [CleanUp, Call.CleansUp]

theorem Preparing.cleanUp {now : Nat} (h : Preparing now trace) : CleanUp trace := by
  cases h <;> simp [CleanUp, Call.CleansUp]

/-- A clean-up of the id map. -/
theorem path_cleansMappings {cleaning : Cleaning} (h : Path CleansMappings .start trace cleaning) :
    CleanUp trace ∧ (cleaning = .done → MappingSwept trace) := by
  have hstop : ∀ {rest : List Event}, Path CleansMappings .done rest cleaning → rest = [] := by
    intro rest hrest
    cases hrest with
    | refl => rfl
    | cons hstep => cases hstep
  refine ⟨h.forall_mem fun _ _ _ _ hstep => hstep.cleansUp, fun hdone => ?_⟩
  subst hdone
  cases h with
  | cons hstep hrest =>
    cases hstep
    cases hrest with
    | cons hstep hrest =>
      cases hstep with
      | early =>
        obtain rfl := hstop hrest
        exact .early
      | due =>
        cases hrest with
        | cons hstep hrest =>
          cases hstep
          obtain rfl := hstop hrest
          exact .due

/-- A clean-up of the answer manager. -/
theorem path_cleansAnswers {cleaning : Cleaning} (h : Path CleansAnswers .start trace cleaning) :
    CleanUp trace ∧ ∀ now, cleaning = .done → Preparing now (trace ++ [⟨.now, now⟩]) := by
  have hstop : ∀ {rest : List Event}, Path CleansAnswers .done rest cleaning → rest = [] := by
    intro rest hrest
    cases hrest with
    | refl => rfl
    | cons hstep => cases hstep
  refine ⟨h.forall_mem fun _ _ _ _ hstep => hstep.cleansUp, fun now hdone => ?_⟩
  subst hdone
  cases h with
  | cons hstep hrest =>
    cases hstep
    cases hrest with
    | cons hstep hrest =>
      cases hstep with
      | early =>
        obtain rfl := hstop hrest
        exact .early
      | due =>
        cases hrest with
        | cons hstep hrest =>
          cases hstep
          obtain rfl := hstop hrest
          exact .due

/-- The course of a request that is forwarded. -/
inductive Forwarding (ctx : CommandProcessorContext) (command : Command) : List Event → Point → Prop
  | start : Forwarding ctx command [] (.request command)
  | drawn (id : UInt32) {cleaning : List Event} {stage : Cleaning} : CleanUp cleaning →
      Forwarding ctx command (⟨.nextId, id⟩ :: cleaning) (.drawn command id stage)
  | mapped (id : UInt32) {mapping cleaning : List Event} {stage : Cleaning} : MappingSwept mapping →
      CleanUp cleaning →
      Forwarding ctx command
        (⟨.nextId, id⟩ :: (mapping ++ ⟨.addMapping id command.hopByHopId, ()⟩ :: cleaning))
        (.mapped command id stage)
  | timed (id : UInt32) {now : Nat} {mapping preparing : List Event} : MappingSwept mapping →
      Preparing now preparing →
      Forwarding ctx command
        (⟨.nextId, id⟩ :: (mapping ++ ⟨.addMapping id command.hopByHopId, ()⟩ :: preparing))
        (.timed command id now)
  | sending (id : UInt32) {now : Nat} {mapping preparing rest : List Event} {p : Point} :
      MappingSwept mapping → Preparing now preparing →
      Sending ctx (command.forwarded ctx.myHost id)
        (some (ctx.undeliverable (command.forwarded ctx.myHost id) command.hopByHopId)) none false
        rest p →
      Forwarding ctx command
        (⟨.nextId, id⟩ :: (mapping ++ ⟨.addMapping id command.hopByHopId, ()⟩ :: (preparing ++
          ⟨.prepareForAnswer (now + 60000) id ctx.connectionId ctx.peerHost ctx.peerRealm, ()⟩ ::
            rest))) p

theorem path_drawn {id : UInt32} (h : Path (Course ctx) (.drawn command id .start) trace p) :
    (CleanUp trace ∧ ∃ stage, p = .drawn command id stage) ∨ ∃ mapping rest, MappingSwept mapping ∧
      trace = mapping ++ ⟨.addMapping id command.hopByHopId, ()⟩ :: rest ∧
        Path (Course ctx) (.mapped command id .start) rest p := by
  have hstep : ∀ stage c r t, Course ctx (.drawn command id stage) c r t →
      (∃ stage', CleansMappings stage c r stage' ∧ t = .drawn command id stage') ∨
        (stage = .done ∧ c = .addMapping id command.hopByHopId ∧ t = .mapped command id .start) := by
    intro stage c r t hstep
    cases hstep with
    | cleanMappings hclean => exact .inl ⟨_, hclean, rfl⟩
    | addMapping => exact .inr ⟨rfl, rfl, rfl⟩
  obtain ⟨mapping, rest, stage, rfl, hclean, hrest⟩ := h.within hstep
  obtain ⟨hcleanUp, hdone⟩ := path_cleansMappings hclean
  rcases hrest with ⟨rfl, rfl⟩ | ⟨_, _, _, rest, rfl, ⟨rfl, rfl, rfl⟩, hpath⟩
  · rw [List.append_nil]
    exact .inl ⟨hcleanUp, stage, rfl⟩
  · exact .inr ⟨mapping, rest, hdone rfl, rfl, hpath⟩

/-- From the clean-up of the answer manager on: the clock is read, and the answer prepared for. -/
theorem path_preparing {embed : Cleaning → Point} {prepared : Nat → Event} {sending : Point}
    (timed : Nat → Point) (h : Path (Course ctx) (embed .start) trace p)
    (hstep : ∀ stage c r t, Course ctx (embed stage) c r t →
      (∃ stage', CleansAnswers stage c r stage' ∧ t = embed stage') ∨
        (stage = .done ∧ ∃ now : Nat, (⟨c, r⟩ : Event) = ⟨.now, now⟩ ∧ t = timed now))
    (hprepare : ∀ now c r t, Course ctx (timed now) c r t → ⟨c, r⟩ = prepared now ∧ t = sending) :
    (CleanUp trace ∧ ∃ stage, p = embed stage) ∨
      (∃ now, Preparing now trace ∧ p = timed now) ∨
        ∃ now preparing rest, Preparing now preparing ∧
          trace = preparing ++ prepared now :: rest ∧ Path (Course ctx) sending rest p := by
  obtain ⟨cleaning, rest, stage, rfl, hclean, hrest⟩ := h.within hstep
  obtain ⟨hcleanUp, hdone⟩ := path_cleansAnswers hclean
  rcases hrest with ⟨rfl, rfl⟩ | ⟨_, _, _, rest, rfl, ⟨rfl, now, heq, rfl⟩, hpath⟩
  · rw [List.append_nil]
    exact .inl ⟨hcleanUp, stage, rfl⟩
  · rw [heq]
    cases hpath with
    | refl => exact .inr (.inl ⟨now, hdone now rfl, rfl⟩)
    | cons hnext hrest =>
      obtain ⟨hprepared, rfl⟩ := hprepare _ _ _ _ hnext
      refine .inr (.inr ⟨now, cleaning ++ [⟨.now, now⟩], _, hdone now rfl, ?_, hrest⟩)
      simp [hprepared]

theorem path_request (hmine : ctx.isMyCommand command = false)
    (h : Path (Course ctx) (.request command) trace p) : Forwarding ctx command trace p := by
  cases h with
  | refl => exact .start
  | cons hstep hrest =>
    cases hstep with
    | handle hmine' => rw [hmine] at hmine'; cases hmine'
    | @draw _ id =>
      rcases path_drawn hrest with ⟨hclean, stage, rfl⟩ | ⟨mapping, rest, hmapping, rfl, hmapped⟩
      · exact .drawn id hclean
      · have hclean : ∀ stage c r t, Course ctx (.mapped command id stage) c r t →
            (∃ stage', CleansAnswers stage c r stage' ∧ t = .mapped command id stage') ∨
              (stage = .done ∧ ∃ now : Nat, (⟨c, r⟩ : Event) = ⟨.now, now⟩ ∧
                t = .timed command id now) := by
          intro stage c r t hstep
          cases hstep with
          | cleanAnswers hclean => exact .inl ⟨_, hclean, rfl⟩
          | clock => exact .inr ⟨rfl, _, rfl, rfl⟩
        have hpreparing := path_preparing (Point.timed command id) hmapped hclean
          fun now c r t hstep => by cases hstep with | prepare => exact ⟨rfl, rfl⟩
        rcases hpreparing with ⟨hclean, stage, rfl⟩ | ⟨now, hprepared, rfl⟩ |
            ⟨now, preparing, rest, hprepared, rfl, hsending⟩
        · exact .mapped id hmapping hclean
        · exact .timed id hmapping hprepared
        · exact .sending id hmapping hprepared (path_sending hsending)

/-- The time limit of the one preparation in the trace: 60 seconds after the clock was read. -/
structure Timed (trace : List Event) (timeout : Nat) : Prop where
  clock : ∃ now : Nat, ⟨.now, now⟩ ∈ trace ∧ timeout = now + 60000
  only : ∀ timeout' id connectionId host realm,
    ⟨.prepareForAnswer timeout' id connectionId host realm, ()⟩ ∈ trace → timeout' = timeout

theorem Preparing.clock {now : Nat} (h : Preparing now trace) : ⟨.now, now⟩ ∈ trace := by
  cases h <;> simp

theorem Sending.not_prepares {reply : Option Command} {info : Option Nat} {answered : Bool}
    {timeout : Nat} {id : UInt32} {u : Unit} (h : Sending ctx request reply info answered trace p) :
    ⟨.prepareForAnswer timeout id connectionId host realm, u⟩ ∉ trace := by
  intro he
  cases h with
  | goesOn hsent => exact hsent.calls _ he
  | givenUp _ hsent hafter =>
    rcases List.mem_append.mp he with hbefore | hresponse
    · exact hsent.calls _ hbefore
    · exact (responded_byId hafter).calls _ hresponse

/-- A preparation behind the clean-up and before the sending is the only one. -/
theorem timed_append {ids preparing rest : List Event} {now : Nat} {id : UInt32}
    {reply : Option Command} {info : Option Nat} {answered : Bool}
    (hids : ∀ timeout id connectionId host realm,
      ⟨.prepareForAnswer timeout id connectionId host realm, ()⟩ ∉ ids)
    (hpreparing : Preparing now preparing)
    (hsending : Sending ctx request reply info answered rest p) :
    Timed (ids ++ (preparing ++
      ⟨.prepareForAnswer (now + 60000) id connectionId host realm, ()⟩ :: rest)) (now + 60000) := by
  refine ⟨⟨now, by simp [hpreparing.clock], rfl⟩, fun timeout' id' connectionId' host' realm' he => ?_⟩
  simp only [List.mem_append, List.mem_cons] at he
  rcases he with he | he | heq | he
  · exact absurd he (hids _ _ _ _ _)
  · exact (hpreparing.cleanUp _ he).elim
  · cases heq
    rfl
  · exact absurd he hsending.not_prepares

/-- The calls for a request that is forwarded under the id. -/
inductive ForwardEvent (ctx : CommandProcessorContext) (command : Command) (id : UInt32)
    (trace : List Event) (p : Point) : Event → Prop
  | draw : ForwardEvent ctx command id trace p ⟨.nextId, id⟩
  | cleanUp {e : Event} : e.1.CleansUp → ForwardEvent ctx command id trace p e
  | addMapping : ForwardEvent ctx command id trace p ⟨.addMapping id command.hopByHopId, ()⟩
  | prepare {timeout : Nat} : Timed trace timeout → ForwardEvent ctx command id trace p
      ⟨.prepareForAnswer timeout id ctx.connectionId ctx.peerHost ctx.peerRealm, ()⟩
  | sending {rest : List Event} {e : Event} : Sending ctx (command.forwarded ctx.myHost id)
        (some (ctx.undeliverable (command.forwarded ctx.myHost id) command.hopByHopId)) none false
        rest p → e ∈ rest → rest ⊆ trace →
      ForwardEvent ctx command id trace p e

/-- A forwarded request is given one id. -/
theorem Forwarding.events (h : Forwarding ctx command trace p) :
    ∃ id, ∀ e ∈ trace, ⟨.nextId, id⟩ ∈ trace ∧ ForwardEvent ctx command id trace p e := by
  cases h with
  | start => exact ⟨0, fun e he => absurd he List.not_mem_nil⟩
  | drawn id hclean =>
    refine ⟨id, fun e he => ⟨List.mem_cons_self, ?_⟩⟩
    rcases List.mem_cons.mp he with rfl | he
    · exact .draw
    · exact .cleanUp (hclean e he)
  | mapped id hmapping hclean =>
    refine ⟨id, fun e he => ⟨List.mem_cons_self, ?_⟩⟩
    simp only [List.mem_cons, List.mem_append] at he
    rcases he with rfl | he | rfl | he
    · exact .draw
    · exact .cleanUp (hmapping.cleanUp e he)
    · exact .addMapping
    · exact .cleanUp (hclean e he)
  | timed id hmapping hpreparing =>
    refine ⟨id, fun e he => ⟨List.mem_cons_self, ?_⟩⟩
    simp only [List.mem_cons, List.mem_append] at he
    rcases he with rfl | he | rfl | he
    · exact .draw
    · exact .cleanUp (hmapping.cleanUp e he)
    · exact .addMapping
    · exact .cleanUp (hpreparing.cleanUp e he)
  | @sending id now mapping preparing rest _ hmapping hpreparing hsending =>
    have hids : ∀ timeout id' connectionId host realm,
        ⟨.prepareForAnswer timeout id' connectionId host realm, ()⟩ ∉
          ⟨.nextId, id⟩ :: (mapping ++ [⟨.addMapping id command.hopByHopId, ()⟩]) := by
      intro timeout id' connectionId host realm hmem
      have hmem' : ⟨.prepareForAnswer timeout id' connectionId host realm, ()⟩ ∈ mapping := by
        simpa using hmem
      exact hmapping.cleanUp _ hmem'
    have htimed : Timed (⟨.nextId, id⟩ :: (mapping ++ [⟨.addMapping id command.hopByHopId, ()⟩]) ++
        (preparing ++ ⟨.prepareForAnswer (now + 60000) id ctx.connectionId ctx.peerHost
          ctx.peerRealm, ()⟩ :: rest)) (now + 60000) := timed_append hids hpreparing hsending
    refine ⟨id, fun e he => ⟨List.mem_cons_self, ?_⟩⟩
    simp only [List.mem_cons, List.mem_append] at he
    rcases he with rfl | he | rfl | he | rfl | he
    · exact .draw
    · exact .cleanUp (hmapping.cleanUp e he)
    · exact .addMapping
    · exact .cleanUp (hpreparing.cleanUp e he)
    · exact .prepare (by simpa using htimed)
    · exact .sending hsending he fun e he => by simp [he]

/-- The response to a forwarded request is under its own id. -/
theorem ForwardEvent.responds {id : UInt32} {connection : Connection} {sent : Except String Unit}
    (h : ForwardEvent ctx command id trace p ⟨.send connection response, sent⟩) :
    response.hopByHopId = command.hopByHopId := by
  cases h with
  | cleanUp hclean => exact hclean.elim
  | sending hsending he =>
    cases hsending with
    | goesOn hsent => exact (hsent.calls _ he).elim
    | givenUp hreply hsent hafter =>
      obtain rfl := Option.some.inj hreply
      rcases List.mem_append.mp he with hbefore | hresponse
      · exact (hsent.calls _ hbefore).elim
      · obtain rfl : response = _ := (responded_byId hafter).calls _ hresponse
        exact answers_undeliverable.hopByHopId

theorem ForwardEvent.drawn {id id' : UInt32}
    (h : ForwardEvent ctx command id trace p ⟨.nextId, id'⟩) : id' = id := by
  cases h with
  | draw => rfl
  | cleanUp hclean => exact hclean.elim
  | sending hsending he =>
    cases hsending with
    | goesOn hsent => exact (hsent.calls _ he).elim
    | givenUp hreply hsent hafter =>
      rcases List.mem_append.mp he with hbefore | hresponse
      · exact (hsent.calls _ hbefore).elim
      · exact ((responded_byId hafter).calls _ hresponse).elim

/-- A forwarded request is given one id, and the response to it is under its own. -/
theorem Forwarding.event (h : Forwarding ctx command trace p) {e : Event} (he : e ∈ trace) :
    (∀ id id', e = ⟨.nextId, id⟩ → ⟨.nextId, id'⟩ ∈ trace → id' = id) ∧
      ∀ connection response sent, e = ⟨.send connection response, sent⟩ →
        response.hopByHopId = command.hopByHopId := by
  obtain ⟨drawn, hevents⟩ := h.events
  refine ⟨fun id id' heq hid' => ?_, fun connection response sent heq => ?_⟩
  · subst heq
    rw [(hevents _ he).2.drawn, (hevents _ hid').2.drawn]
  · subst heq
    exact (hevents _ he).2.responds

/-- The course of an answer. -/
inductive Answering (ctx : CommandProcessorContext) (command : Command) : List Event → Point → Prop
  | start : Answering ctx command [] (.answer command)
  | looked (original : Option UInt32) :
      Answering ctx command [⟨.removeMapping command.hopByHopId, original⟩]
        (.looked command original)
  | matched (original : Option UInt32) (origin : Option (String × String × String))
      {rest : List Event} {p : Point} :
      Path (Course ctx) (.matched ctx command original origin) rest p →
      Answering ctx command (⟨.removeMapping command.hopByHopId, original⟩ ::
        ⟨.answerReceived (command.removeRecordRoute ctx.myHost), origin⟩ :: rest) p

theorem path_answer (h : Path (Course ctx) (.answer command) trace p) :
    Answering ctx command trace p := by
  cases h with
  | refl => exact .start
  | cons hstep hrest =>
    cases hstep with
    | @lookUp _ original =>
      cases hrest with
      | refl => exact .looked original
      | cons hstep hrest =>
        cases hstep with
        | «match» => exact .matched original _ hrest

/-- Behind the matching: nothing, or the response to the peer the request came from. -/
theorem path_matched {original : Option UInt32} {origin : Option (String × String × String)}
    (h : Path (Course ctx) (.matched ctx command original origin) trace p) :
    (trace = [] ∧ p = .done ∧ ∀ connectionId host realm, origin = some (connectionId, host, realm) →
      host = ctx.myHost ∧ realm = ctx.myRealm) ∨
      ∃ connectionId host realm, origin = some (connectionId, host, realm) ∧
        ¬(host = ctx.myHost ∧ realm = ctx.myRealm) ∧
        Path (Course ctx) (.responding connectionId host realm
          (command.returned ctx.myHost (original.getD command.hopByHopId))) trace p := by
  match origin with
  | none =>
    obtain ⟨rfl, rfl⟩ := path_done h
    exact .inl ⟨rfl, rfl, fun _ _ _ heq => by cases heq⟩
  | some (connectionId, host, realm) =>
    by_cases hown : host = ctx.myHost ∧ realm = ctx.myRealm
    · simp only [Point.matched, if_pos hown] at h
      obtain ⟨rfl, rfl⟩ := path_done h
      refine .inl ⟨rfl, rfl, fun _ _ _ heq => ?_⟩
      cases heq
      exact hown
    · simp only [Point.matched, if_neg hown] at h
      exact .inr ⟨connectionId, host, realm, rfl, hown, h⟩

/-- A response whose connection is still to be looked up. -/
theorem path_responding (h : Path (Course ctx) (.responding connectionId host realm response) trace p) :
    (trace = [] ∧ p = .responding connectionId host realm response) ∨
      Responded connectionId host realm response trace p := by
  cases h with
  | refl => exact .inl ⟨rfl, rfl⟩
  | cons hstep hrest =>
    cases hstep with
    | findById => exact .inr (responded_byId hrest)

/-- The calls for an answer, with what is known of each. -/
inductive AnswerEvent (ctx : CommandProcessorContext) (command : Command) (trace : List Event) :
    Event → Prop
  | lookUp (original : Option UInt32) :
      trace.head? = some ⟨.removeMapping command.hopByHopId, original⟩ →
      AnswerEvent ctx command trace ⟨.removeMapping command.hopByHopId, original⟩
  | received (origin : Option (String × String × String)) :
      AnswerEvent ctx command trace
        ⟨.answerReceived (command.removeRecordRoute ctx.myHost), origin⟩
  | responds {connectionId host realm : String} {original : Option UInt32} {e : Event} :
      ⟨.removeMapping command.hopByHopId, original⟩ ∈ trace →
      ⟨.answerReceived (command.removeRecordRoute ctx.myHost), some (connectionId, host, realm)⟩ ∈
        trace →
      e.1.Responds connectionId host realm
        (command.returned ctx.myHost (original.getD command.hopByHopId)) →
      AnswerEvent ctx command trace e

theorem Answering.event (h : Answering ctx command trace p) {e : Event} (he : e ∈ trace) :
    AnswerEvent ctx command trace e := by
  cases h with
  | start => cases he
  | looked original =>
    obtain rfl := List.mem_singleton.mp he
    exact .lookUp original rfl
  | matched original origin hrest =>
    rcases List.mem_cons.mp he with rfl | hlater
    · exact .lookUp original rfl
    · rcases List.mem_cons.mp hlater with rfl | hlast
      · exact .received origin
      · rcases path_matched hrest with ⟨rfl, -⟩ | ⟨connectionId, host, realm, rfl, -, hpath⟩
        · cases hlast
        · rcases path_responding hpath with ⟨rfl, -⟩ | hresponded
          · cases hlast
          · exact .responds List.mem_cons_self (List.mem_cons_of_mem _ List.mem_cons_self)
              (hresponded.calls e hlast)

/-- An answer that has been received has been looked up before, and goes on from there. -/
theorem Answering.of_received {answer : Command} {origin : Option (String × String × String)}
    (h : Answering ctx command trace p) (he : ⟨.answerReceived answer, origin⟩ ∈ trace) :
    answer = command.removeRecordRoute ctx.myHost ∧ ∃ original rest,
      trace =
        ⟨.removeMapping command.hopByHopId, original⟩ :: ⟨.answerReceived answer, origin⟩ :: rest ∧
        Path (Course ctx) (.matched ctx command original origin) rest p := by
  cases h with
  | start => cases he
  | looked => simp at he
  | @matched original origin' rest _ hrest =>
    have hor : (answer = command.removeRecordRoute ctx.myHost ∧ origin = origin') ∨
        ⟨.answerReceived answer, origin⟩ ∈ rest := by
      simpa using he
    rcases hor with ⟨rfl, rfl⟩ | hlater
    · exact ⟨rfl, original, rest, rfl, hrest⟩
    · rcases path_matched hrest with ⟨rfl, -⟩ | ⟨_, _, _, -, -, hpath⟩
      · cases hlater
      · rcases path_responding hpath with ⟨rfl, -⟩ | hresponded
        · cases hlater
        · exact (hresponded.calls _ hlater).elim

/-- If a connection is found under the id, the response is sent on that one only. -/
theorem eq_of_found {connection connection' : Connection} {response' : Command}
    {sent : Except String Unit}
    (h : Path (Course ctx) (.responding connectionId host realm response) trace p)
    (hfound : ⟨.getConnectionById connectionId, some connection⟩ ∈ trace)
    (hsent : ⟨.send connection' response', sent⟩ ∈ trace) : connection' = connection := by
  cases h with
  | refl => cases hfound
  | cons hstep hrest =>
    cases hstep with
    | @findById _ _ _ _ byId =>
      have hsent' := (List.mem_cons.mp hsent).resolve_left (by simp)
      match byId with
      | some found =>
        rcases path_found hrest with ⟨rfl, -⟩ | ⟨sent', rfl, -⟩
        · cases hsent'
        · have heq : connection = found := by simpa using hfound
          have heq' : (connection' = found ∧ response' = response) ∧ sent = sent' := by
            simpa using hsent'
          rw [heq, heq'.1.1]
      | none =>
        -- the connection is not looked up again
        have hfound' := (List.mem_cons.mp hfound).resolve_left (by simp)
        cases hrest with
        | refl => cases hfound'
        | cons hstep hrest =>
          cases hstep with
          | @findByPeer _ _ _ byPeer =>
            have hfound'' := (List.mem_cons.mp hfound').resolve_left (by simp)
            match byPeer with
            | none =>
              obtain ⟨rfl, -⟩ := path_done hrest
              cases hfound''
            | some found =>
              rcases path_found hrest with ⟨rfl, -⟩ | ⟨sent', rfl, -⟩
              · cases hfound''
              · simp at hfound''

/-- The course of a request of this stack itself. -/
inductive Issuing (ctx : CommandProcessorContext) (command : Command) : List Event → Point → Prop
  | start : Issuing ctx command [] (.own command)
  | drawn (id : UInt32) : Issuing ctx command [⟨.nextId, id⟩] (.ownDrawn command id)
  | numbered (id endToEndId : UInt32) {cleaning : List Event} {stage : Cleaning} :
      CleanUp cleaning →
      Issuing ctx command (⟨.nextId, id⟩ :: ⟨.nextEndToEndId, endToEndId⟩ :: cleaning)
        (.ownNumbered command id endToEndId stage)
  | timed (id endToEndId : UInt32) {now : Nat} {preparing : List Event} : Preparing now preparing →
      Issuing ctx command (⟨.nextId, id⟩ :: ⟨.nextEndToEndId, endToEndId⟩ :: preparing)
        (.ownTimed command id endToEndId now)
  | sending (id endToEndId : UInt32) {now : Nat} {preparing rest : List Event} {p : Point} :
      Preparing now preparing →
      Sending ctx (command.issued ctx.myHost ctx.myRealm id endToEndId) none none false rest p →
      Issuing ctx command (⟨.nextId, id⟩ :: ⟨.nextEndToEndId, endToEndId⟩ :: (preparing ++
        ⟨.prepareForAnswer (now + 60000) id "" ctx.myHost ctx.myRealm, ()⟩ :: rest)) p

theorem path_own (h : Path (Course ctx) (.own command) trace p) : Issuing ctx command trace p := by
  cases h with
  | refl => exact .start
  | cons hstep hrest =>
    cases hstep with
    | @drawOwn _ id =>
      cases hrest with
      | refl => exact .drawn id
      | cons hstep hrest =>
        cases hstep with
        | @number _ _ endToEndId =>
          have hclean : ∀ stage c r t, Course ctx (.ownNumbered command id endToEndId stage) c r t →
              (∃ stage', CleansAnswers stage c r stage' ∧
                t = .ownNumbered command id endToEndId stage') ∨
                (stage = .done ∧ ∃ now : Nat, (⟨c, r⟩ : Event) = ⟨.now, now⟩ ∧
                  t = .ownTimed command id endToEndId now) := by
            intro stage c r t hstep
            cases hstep with
            | cleanOwn hclean => exact .inl ⟨_, hclean, rfl⟩
            | clockOwn => exact .inr ⟨rfl, _, rfl, rfl⟩
          have hpreparing := path_preparing (Point.ownTimed command id endToEndId) hrest hclean
            fun now c r t hstep => by cases hstep with | prepareOwn => exact ⟨rfl, rfl⟩
          rcases hpreparing with ⟨hclean, stage, rfl⟩ | ⟨now, hprepared, rfl⟩ |
              ⟨now, preparing, rest, hprepared, rfl, hsending⟩
          · exact .numbered id endToEndId hclean
          · exact .timed id endToEndId hprepared
          · exact .sending id endToEndId hprepared (path_sending hsending)

/-- The calls for a request of this stack itself. -/
inductive IssueEvent (ctx : CommandProcessorContext) (trace : List Event) : Event → Prop
  | draw (id : UInt32) : IssueEvent ctx trace ⟨.nextId, id⟩
  | number (id : UInt32) : IssueEvent ctx trace ⟨.nextEndToEndId, id⟩
  | cleanUp {e : Event} : e.1.CleansUp → IssueEvent ctx trace e
  | prepare {timeout : Nat} (id : UInt32) : ⟨.nextId, id⟩ ∈ trace → Timed trace timeout →
      IssueEvent ctx trace ⟨.prepareForAnswer timeout id "" ctx.myHost ctx.myRealm, ()⟩
  | sends {request : Command} {e : Event} : SendEvent request trace e → IssueEvent ctx trace e

theorem Issuing.event (h : Issuing ctx command trace p) {e : Event} (he : e ∈ trace) :
    IssueEvent ctx trace e := by
  cases h with
  | start => cases he
  | drawn id =>
    obtain rfl := List.mem_singleton.mp he
    exact .draw id
  | numbered id endToEndId hclean =>
    simp only [List.mem_cons] at he
    rcases he with rfl | rfl | he
    · exact .draw id
    · exact .number endToEndId
    · exact .cleanUp (hclean e he)
  | timed id endToEndId hpreparing =>
    simp only [List.mem_cons] at he
    rcases he with rfl | rfl | he
    · exact .draw id
    · exact .number endToEndId
    · exact .cleanUp (hpreparing.cleanUp e he)
  | @sending id endToEndId now preparing rest _ hpreparing hsending =>
    simp only [List.mem_cons, List.mem_append] at he
    rcases he with rfl | rfl | he | rfl | he
    · exact .draw id
    · exact .number endToEndId
    · exact .cleanUp (hpreparing.cleanUp e he)
    · have hids : ∀ timeout id' connectionId host realm,
          ⟨.prepareForAnswer timeout id' connectionId host realm, ()⟩ ∉
            ([⟨.nextId, id⟩, ⟨.nextEndToEndId, endToEndId⟩] : List Event) := by
        intro timeout id' connectionId host realm hmem
        simp at hmem
      exact .prepare id List.mem_cons_self (timed_append hids hpreparing hsending)
    · cases hsending with
      | goesOn hsent => exact .sends ((hsent.event he).mono fun e h => by simp [h])
      | givenUp hreply => cases hreply

/-- The course of an application request. -/
inductive Requested (ctx : CommandProcessorContext) (command : Command) : List Event → Point → Prop
  | looped {trace : List Event} {p : Point} : ctx.isLoopedRequest command = true →
      Path (Course ctx) (.responding ctx.connectionId (command.getOriginHost.getD "")
        (command.getOriginRealm.getD "") (ctx.loopDetected command)) trace p →
      Requested ctx command trace p
  | start : Requested ctx command [] (.request command)
  | handled {r : Except String (Option Command)} {trace : List Event} {p : Point} :
      ctx.isLoopedRequest command = false → ctx.isMyCommand command = true →
      Path (Course ctx) (.handled ctx r) trace p →
      Requested ctx command (⟨.handleCommand command, r⟩ :: trace) p
  | forwarding {trace : List Event} {p : Point} :
      ctx.isLoopedRequest command = false → ctx.isMyCommand command = false →
      Forwarding ctx command trace p → Requested ctx command trace p

theorem path_application {transport : Transport} (htransport : transport ≠ .rest)
    (hrequest : command.isRequest = true) (happlication : command.IsApplication)
    (h : Path (Course ctx) (.start ctx transport command) trace p) : Requested ctx command trace p := by
  unfold Point.start at h
  rw [if_neg htransport, if_neg (by simp [happlication.1, happlication.2])] at h
  split at h
  · rename_i hlooped
    exact .looped hlooped h
  · rename_i hlooped
    cases hmine : ctx.isMyCommand command with
    | false => exact .forwarding (by simpa using hlooped) hmine (path_request hmine h)
    | true =>
      cases h with
      | refl => exact .start
      | cons hstep hrest =>
        cases hstep with
        | handle => exact .handled (by simpa using hlooped) hmine hrest
        | draw hnot => rw [hmine] at hnot; cases hnot

/-- Control requests are kept to themselves. -/
theorem path_control_request {transport : Transport} (htransport : transport ≠ .rest)
    (hrequest : command.isRequest = true) (hcontrol : ¬command.IsApplication)
    (h : Path (Course ctx) (.start ctx transport command) trace p) : ∀ e ∈ trace, e.1.Control := by
  have hcode : command.code = CommandCode.deviceWatchdog.asU32 ∨
      command.code = CommandCode.disconnectPeer.asU32 := by
    rwa [Command.IsApplication, not_and_or, not_ne_iff, not_ne_iff] at hcontrol
  unfold Point.start at h
  rw [if_neg htransport, if_pos (hcode.imp (⟨·, .inl hrequest⟩) (⟨·, hrequest⟩))] at h
  exact (path_control h).2

/-- What this node itself answers to a request. -/
inductive Answered (ctx : CommandProcessorContext) (command : Command) (trace : List Event) :
    Command → Prop
  | looped : ctx.isLoopedRequest command = true → Answered ctx command trace (ctx.loopDetected command)
  | handled {answer : Command} : ctx.isLoopedRequest command = false →
      ctx.isMyCommand command = true → ⟨.handleCommand command, .ok (some answer)⟩ ∈ trace →
      Answered ctx command trace answer
  | undeliverable (id : UInt32) : ctx.isLoopedRequest command = false →
      ctx.isMyCommand command = false → ⟨.nextId, id⟩ ∈ trace →
      Answered ctx command trace
        (ctx.undeliverable (command.forwarded ctx.myHost id) command.hopByHopId)

/-- The calls for an application request, with what is known of each. -/
inductive RequestEvent (ctx : CommandProcessorContext) (command : Command) (trace : List Event) :
    Event → Prop
  | handle (r : Except String (Option Command)) :
      RequestEvent ctx command trace ⟨.handleCommand command, r⟩
  | draw (id : UInt32) : RequestEvent ctx command trace ⟨.nextId, id⟩
  | cleanUp {e : Event} : e.1.CleansUp → RequestEvent ctx command trace e
  | addMapping (id : UInt32) : ctx.isLoopedRequest command = false →
      ctx.isMyCommand command = false → ⟨.nextId, id⟩ ∈ trace →
      RequestEvent ctx command trace ⟨.addMapping id command.hopByHopId, ()⟩
  | prepare {timeout : Nat} (id : UInt32) : ctx.isLoopedRequest command = false →
      ctx.isMyCommand command = false → ⟨.nextId, id⟩ ∈ trace → Timed trace timeout →
      RequestEvent ctx command trace
        ⟨.prepareForAnswer timeout id ctx.connectionId ctx.peerHost ctx.peerRealm, ()⟩
  | sends (id : UInt32) {e : Event} : ctx.isLoopedRequest command = false →
      ctx.isMyCommand command = false → ⟨.nextId, id⟩ ∈ trace →
      SendEvent (command.forwarded ctx.myHost id) trace e → RequestEvent ctx command trace e
  | responds {connectionId host realm : String} {response : Command} {e : Event} :
      e.1.Responds connectionId host realm response → Answered ctx command trace response →
      RequestEvent ctx command trace e

theorem Requested.event (h : Requested ctx command trace p) {e : Event} (he : e ∈ trace) :
    RequestEvent ctx command trace e := by
  cases h with
  | looped hlooped hpath =>
    rcases path_responding hpath with ⟨rfl, -⟩ | hresponded
    · cases he
    · exact .responds (hresponded.calls e he) (.looped hlooped)
  | start => cases he
  | @handled r rest p hlooped hmine hpath =>
    rcases List.mem_cons.mp he with rfl | hlater
    · exact .handle r
    · rcases r with _ | _ | answer
      · obtain ⟨rfl, -⟩ := path_done hpath
        cases hlater
      · obtain ⟨rfl, -⟩ := path_done hpath
        cases hlater
      · rcases path_responding hpath with ⟨rfl, -⟩ | hresponded
        · cases hlater
        · exact .responds (hresponded.calls e hlater) (.handled hlooped hmine List.mem_cons_self)
  | forwarding hlooped hmine hforwarding =>
    obtain ⟨id, hevents⟩ := hforwarding.events
    obtain ⟨hid, hevent⟩ := hevents e he
    cases hevent with
    | draw => exact .draw id
    | cleanUp hclean => exact .cleanUp hclean
    | addMapping => exact .addMapping id hlooped hmine hid
    | prepare htimed => exact .prepare id hlooped hmine hid htimed
    | sending hsending hmem hsub =>
      cases hsending with
      | goesOn hsent => exact .sends id hlooped hmine hid ((hsent.event hmem).mono hsub)
      | givenUp hreply hsent hafter =>
        obtain rfl := Option.some.inj hreply
        rcases List.mem_append.mp hmem with hbefore | hafter'
        · refine .sends id hlooped hmine hid ((hsent.event hbefore).mono fun e he => hsub ?_)
          exact List.mem_append_left _ he
        · exact .responds ((responded_byId hafter).calls e hafter')
            (.undeliverable id hlooped hmine hid)

/-- The calls for an application request: it is sent on, or answered; and nothing is written
to the socket it came from. -/
structure Call.Serves (ctx : CommandProcessorContext) (command : Command) (trace : List Event)
    (c : Call) : Prop where
  request : ∀ deadline conn request, c = .sendWithin deadline conn request →
    ctx.isLoopedRequest command = false ∧ ctx.isMyCommand command = false ∧
      ∃ id, ⟨.nextId, id⟩ ∈ trace ∧ request = command.forwarded ctx.myHost id
  answer : ∀ conn response, c = .send conn response → Answered ctx command trace response
  write : ∀ written, c ≠ .write written

theorem Requested.serves (h : Requested ctx command trace p) {e : Event} (he : e ∈ trace) :
    e.1.Serves ctx command trace := by
  cases h.event he with
  | handle | draw | addMapping | prepare => exact ⟨by simp, by simp, by simp⟩
  | cleanUp hclean =>
    refine ⟨fun _ _ _ heq => ?_, fun _ _ heq => ?_, fun _ heq => ?_⟩ <;> rw [heq] at hclean
    · exact hclean.elim
    · exact hclean.elim
    · exact hclean
  | sends id hlooped hmine hid hsend =>
    have hcall := hsend.call
    refine ⟨fun _ _ _ heq => ⟨hlooped, hmine, id, hid, ?_⟩, fun _ _ heq => ?_, fun _ heq => ?_⟩ <;>
      rw [heq] at hcall
    · exact hcall
    · exact hcall.elim
    · exact hcall
  | responds hcall hresponse =>
    refine ⟨fun _ _ _ heq => ?_, fun _ _ heq => ?_, fun _ heq => ?_⟩ <;> rw [heq] at hcall
    · exact hcall.elim
    · rw [show _ = _ from hcall]
      exact hresponse
    · exact hcall

/-- A request that is sent is the one that was received, under the id drawn for it and with
a Route-Record. -/
theorem forwarded_of_mem {transport : Transport} {deadline : Nat} {conn : Connection}
    {sent : (Call.sendWithin deadline conn request).Reply} (htransport : transport ≠ .rest)
    (h : Path (Course ctx) (.start ctx transport command) trace p)
    (hmem : ⟨.sendWithin deadline conn request, sent⟩ ∈ trace) :
    command.isRequest = true ∧ command.IsApplication ∧ ctx.isLoopedRequest command = false ∧
      ctx.isMyCommand command = false ∧
      ∃ id, ⟨.nextId, id⟩ ∈ trace ∧ request = command.forwarded ctx.myHost id := by
  cases hrequest : command.isRequest with
  | true =>
    by_cases happlication : command.IsApplication
    · have hrequested := path_application htransport hrequest happlication h
      obtain ⟨hlooped, hmine, hsent⟩ := (hrequested.serves hmem).request deadline conn request rfl
      exact ⟨rfl, happlication, hlooped, hmine, hsent⟩
    · exact (path_control_request htransport hrequest happlication h _ hmem).elim
  | false =>
    unfold Point.start at h
    rw [if_neg htransport] at h
    split at h
    · exact ((path_control h).2 _ hmem).elim
    · rw [CommandProcessorContext.isLoopedRequest, hrequest] at h
      cases path_answer h with
      | start => cases hmem
      | looked => simp at hmem
      | matched original origin hrest =>
        have hlater := (List.mem_cons.mp ((List.mem_cons.mp hmem).resolve_left
          (by simp))).resolve_left (by simp)
        rcases path_matched hrest with ⟨rfl, -⟩ | ⟨_, _, _, -, -, hpath⟩
        · cases hlater
        · rcases path_responding hpath with ⟨rfl, -⟩ | hresponded
          · cases hlater
          · exact (hresponded.calls _ hlater).elim

/-- An answer that is sent on is the one that was received, under the id the id map gave and
without the Route-Records of this host. -/
theorem returned_of_mem {transport : Transport} {conn : Connection}
    {sent : (Call.send conn response).Reply} (htransport : transport ≠ .rest)
    (hanswer : command.isRequest = false)
    (h : Path (Course ctx) (.start ctx transport command) trace p)
    (hmem : ⟨.send conn response, sent⟩ ∈ trace) :
    ∃ original, ⟨.removeMapping command.hopByHopId, original⟩ ∈ trace ∧
      response = command.returned ctx.myHost (original.getD command.hopByHopId) := by
  unfold Point.start at h
  rw [if_neg htransport] at h
  split at h
  · exact ((path_control h).2 _ hmem).elim
  · rw [CommandProcessorContext.isLoopedRequest, hanswer] at h
    cases (path_answer h).event hmem with
    | responds hlookUp _ hcall => exact ⟨_, hlookUp, hcall⟩

end

end RestDiameterBridge
