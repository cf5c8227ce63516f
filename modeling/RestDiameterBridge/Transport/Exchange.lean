import RestDiameterBridge.Transport.Node

/-!
# RestDiameterBridge.Transport.Exchange

What the program of a task does to the matching state, as a protocol. `Stage` is how far
a program has come in bringing a request out or an answer back, `Exchange` which calls it
may make next; everything else it does (sending the request and waiting for its answer,
looking up connections, reading the clock) is `Quiet`.

`Transport.processCommand_conforms` says that on every transport, whatever it receives,
`process_command` follows the protocol. What several tasks do to the shared state
together is then a matter of stages, not of programs.
-/

namespace RestDiameterBridge

open Program

/-- How far a program has come. The ids are hop-by-hop ids: the one a request came with,
the one drawn for it, the one of an answer as it is received or sent. -/
inductive Stage
  | request (original : UInt32)
  | drawn (original generated : UInt32)
  | mapped (original generated : UInt32)
  /-- The request is out; the program may still respond to it itself. -/
  | waiting (original generated : UInt32)
  /-- A request of this stack itself is out. -/
  | own (generated : UInt32)
  | answer (received : UInt32)
  /-- The id map has been asked for the original id. -/
  | looked (received : UInt32) (original : Option UInt32)
  /-- The answer belongs to a peer's request and is sent under the id. -/
  | replying (sent : UInt32)
  | done

/-- Where a program starts on a command. -/
def Stage.start (command : Command) : Stage :=
  if command.isRequest then .request command.hopByHopId else .answer command.hopByHopId

/-- The id drawn for the request a program is sending. -/
def Stage.generated : Stage → Option UInt32
  | drawn _ id | mapped _ id | waiting _ id | own id => some id
  | request _ | answer _ | looked .. | replying _ | done => none

/-- Calls that draw no id, send no response and leave mappings and answer entries alone. A
request is sent, and its answer waited for, under the id drawn. -/
def Stage.Quiet (stage : Stage) : Call → Prop
  | .nextId | .addMapping .. | .removeMapping _ | .prepareForAnswer .. | .answerReceived _
  | .send .. => False
  | .notified _ hopByHopId _ => stage.generated = some hopByHopId
  | .sendWithin _ _ command => stage.generated = some command.hopByHopId
  | _ => True

/-- The protocol, for a stack with the given identity. -/
inductive Exchange (host realm : String) : Stage → (c : Call) → c.Reply → Stage → Prop
  | quiet {stage c r} : stage.Quiet c → Exchange host realm stage c r stage
  | draw {original id} : Exchange host realm (.request original) .nextId id (.drawn original id)
  /-- Ids drawn for control messages. -/
  | drawForAnswer {received id} : Exchange host realm (.answer received) .nextId id .done
  | drawMore {id} : Exchange host realm .done .nextId id .done
  | addMapping {original id} :
      Exchange host realm (.drawn original id) (.addMapping id original) () (.mapped original id)
  | prepare {original id timeout connectionId answerHost answerRealm} :
      Exchange host realm (.mapped original id)
        (.prepareForAnswer timeout id connectionId answerHost answerRealm) () (.waiting original id)
  /-- A REST request: no mapping, and no response to a peer. -/
  | prepareOwn {original id timeout connectionId} :
      Exchange host realm (.drawn original id)
        (.prepareForAnswer timeout id connectionId host realm) () (.own id)
  /-- A request that is not forwarded. -/
  | respond {original connection response r} :
      Exchange host realm (.request original) (.send connection response) r .done
  | giveUp {original id connection response r} : response.hopByHopId = original →
      Exchange host realm (.waiting original id) (.send connection response) r .done
  | lookUp {received original} :
      Exchange host realm (.answer received) (.removeMapping received) original
        (.looked received original)
  | unmatched {received original answer} : answer.hopByHopId = received →
      Exchange host realm (.looked received original) (.answerReceived answer) none .done
  | matchedOwn {received original answer connectionId} : answer.hopByHopId = received →
      Exchange host realm (.looked received original) (.answerReceived answer)
        (some (connectionId, host, realm)) .done
  | matched {received original answer connectionId answerHost answerRealm} :
      answer.hopByHopId = received → ¬(answerHost = host ∧ answerRealm = realm) →
      Exchange host realm (.looked received original) (.answerReceived answer)
        (some (connectionId, answerHost, answerRealm)) (.replying (original.getD received))
  | reply {sent connection response r} : response.hopByHopId = sent →
      Exchange host realm (.replying sent) (.send connection response) r .done

/-- A program that follows the protocol from a stage, wherever it ends. -/
abbrev Conforms {α : Type} (host realm : String) (stage : Stage) (p : Proc α) : Prop :=
  Follows (Exchange host realm) (fun _ _ => True) stage p

/-! ### The programs follow the protocol -/

section
variable {settings : SendSettings} {ctx : CommandProcessorContext} {command : Command}
  {host realm : String} {stage : Stage}

/-- A request goes out under the id drawn. -/
theorem Call.Sends.quiet {request : Command} {c : Call} (h : c.Sends request)
    (hid : stage.generated = some request.hopByHopId) : stage.Quiet c := by
  cases c with
  | sendWithin _ _ command =>
    obtain rfl : command = request := h
    exact hid
  | notified _ hopByHopId _ =>
    obtain rfl : hopByHopId = request.hopByHopId := h
    exact hid
  | nextId | addMapping _ _ | removeMapping _ | prepareForAnswer _ _ _ _ _ | answerReceived _
  | send _ _ => exact h
  | _ => exact trivial

theorem Call.CleansUp.quiet {c : Call} (h : c.CleansUp) : stage.Quiet c := by
  cases c <;> first | exact trivial | exact h.elim

theorem conforms_ret {α : Type} (a : α) : Conforms host realm stage (.ret a) := trivial

/-- A quiet call does not change the stage. -/
theorem conforms_quiet {α : Type} {c : Call} {next : c.Reply → Proc α} (hc : stage.Quiet c)
    (h : ∀ r, Conforms host realm stage (next r)) : Conforms host realm stage (.call c next) :=
  fun r => ⟨stage, .quiet hc, h r⟩

/-- Sending the request is quiet. -/
theorem conforms_sendRequest {α : Type} {request : Command} {f : Except String Command → Proc α}
    (hid : stage.generated = some request.hopByHopId)
    (h : ∀ result, Conforms host realm stage (f result)) :
    Conforms host realm stage (sendRequest settings request >>= f) := by
  refine (sendRequest_uses.follows fun c hc r => 
    .quiet (hc.quiet hid)).bind fun stage' result hstage => ?_
  rw [hstage]
  exact h result

/-- A response is sent once; what follows makes no call. -/
theorem conforms_sendResponse {α : Type} {connectionId peerHost peerRealm : String}
    {response : Command} {stage' : Stage} {f : Except String Unit → Proc α}
    (h : ∀ connection r, Exchange host realm stage (.send connection response) r stage')
    (hf : ∀ stage sent, Conforms host realm stage (f sent)) :
    Conforms host realm stage (sendResponse connectionId peerHost peerRealm response >>= f) := by
  have hsend : ∀ connection : Connection,
      Conforms host realm stage (await (.send connection response) >>= f) :=
    fun connection r => ⟨stage', h connection r, hf stage' r⟩
  refine conforms_quiet trivial fun byId => ?_
  match byId with
  | some connection => exact hsend connection
  | none =>
    refine conforms_quiet trivial fun byPeer => ?_
    match byPeer with
    | some connection => exact hsend connection
    | none => exact hf _ _

/-- A control message under fresh ids, from a stage in which an id may be drawn. -/
theorem conforms_writeControl {message : UInt32 → UInt32 → Command}
    (h : ∀ id, ∃ stage', Exchange host realm stage .nextId id stage') :
    Conforms host realm stage (do
      let hopByHopId ← await .nextId
      let endToEndId ← await .nextEndToEndId
      await (.write (message hopByHopId endToEndId))) := by
  intro id
  obtain ⟨stage', hdraw⟩ := h id
  exact ⟨stage', hdraw, conforms_quiet trivial fun _ => conforms_quiet trivial conforms_ret⟩

/-- The response of `forward_request` carries the id the request came with. -/
theorem undeliverable_hopByHopId (request : Command) (original : UInt32) :
    (ctx.undeliverable request original).hopByHopId = original := by
  simp [CommandProcessorContext.undeliverable, Command.setResultCode]

theorem forwardRequest_conforms :
    Conforms host realm (.request command.hopByHopId)
      (CommandProcessorContext.forwardRequest settings ctx command) := by
  refine fun id => ⟨_, .draw, ?_⟩
  refine Proc.follows_addMapping (fun _ => _) (fun _ _ _ _ hc => .quiet hc.cleansUp.quiet)
    ⟨_, .addMapping, ?_⟩
  refine Proc.follows_prepareForAnswer (fun _ => _) (fun _ _ _ _ hc => .quiet hc.cleansUp.quiet)
    fun _ => ⟨_, .quiet trivial, _, .prepare, ?_⟩
  refine conforms_sendRequest rfl fun result => ?_
  match result with
  | .ok _ => exact conforms_ret _
  | .error _ =>
    exact conforms_sendResponse (fun _ _ => .giveUp (undeliverable_hopByHopId _ _))
      (fun _ _ => conforms_ret _)

theorem processAnswer_conforms :
    Conforms ctx.myHost ctx.myRealm (.answer command.hopByHopId)
      (CommandProcessorContext.processAnswer ctx command) := by
  refine fun original => ⟨_, .lookUp, fun origin => ?_⟩
  match origin with
  | none => exact ⟨_, .unmatched rfl, conforms_ret _⟩
  | some (connectionId, answerHost, answerRealm) =>
    by_cases hown : answerHost = ctx.myHost ∧ answerRealm = ctx.myRealm
    · obtain ⟨rfl, rfl⟩ := hown
      refine ⟨_, .matchedOwn rfl, ?_⟩
      show Conforms _ _ _ (if _ then _ else _)
      rw [if_pos ⟨rfl, rfl⟩]
      exact conforms_ret _
    · refine ⟨_, .matched rfl hown, ?_⟩
      show Conforms _ _ _ (if _ then _ else _)
      rw [if_neg hown]
      refine conforms_sendResponse (fun _ _ => .reply rfl) (fun _ sent => ?_)
      match sent with
      | .ok () => exact conforms_ret _
      | .error _ => exact conforms_ret _

theorem processCommand_conforms :
    Conforms ctx.myHost ctx.myRealm (.start command)
      (CommandProcessorContext.processCommand settings ctx command) := by
  have hrespond : command.isRequest = true → ∀ {peerHost peerRealm : String} {response : Command}
      {f : String → String}, Conforms ctx.myHost ctx.myRealm (.start command) (do
        let sent ← sendResponse ctx.connectionId peerHost peerRealm response
        return sent.mapError f) := by
    intro hrequest peerHost peerRealm response f
    rw [Stage.start, if_pos hrequest]
    exact conforms_sendResponse (fun _ _ => .respond) (fun _ _ => conforms_ret _)
  unfold CommandProcessorContext.processCommand
  split
  · rename_i hlooped
    simp only [CommandProcessorContext.isLoopedRequest, Bool.and_eq_true] at hlooped
    exact hrespond hlooped.1
  · split
    · rename_i hrequest
      split
      · refine conforms_quiet trivial fun handled => ?_
        match handled with
        | .ok (some _) => exact hrespond hrequest
        | .ok none => exact conforms_ret _
        | .error _ => exact conforms_ret _
      · rw [Stage.start, if_pos hrequest]
        exact forwardRequest_conforms
    · rename_i hanswer
      rw [Stage.start, if_neg hanswer]
      exact processAnswer_conforms

/-- An id may be drawn at the start of any command. -/
theorem exists_exchange_nextId (id : UInt32) :
    ∃ stage', Exchange host realm (.start command) .nextId id stage' := by
  unfold Stage.start
  split
  · exact ⟨_, .draw⟩
  · exact ⟨_, .drawForAnswer⟩

/-! ### The transports -/

theorem tcpClient_conforms :
    Conforms ctx.myHost ctx.myRealm (.start command)
      (TcpClientConnection.processCommand settings ctx command) := by
  unfold TcpClientConnection.processCommand
  split
  · split
    · exact conforms_writeControl exists_exchange_nextId
    · exact conforms_ret _
  · split
    · -- the answer to a DPR, then the DPR and the end of the writing side
      refine conforms_quiet trivial fun connected => ?_
      match connected with
      | false => exact conforms_ret _
      | true =>
        refine conforms_quiet trivial fun written => ?_
        match written with
        | .error _ => exact conforms_ret _
        | .ok () =>
          intro id
          obtain ⟨stage', hdraw⟩ := exists_exchange_nextId id
          refine ⟨stage', hdraw, conforms_quiet trivial fun _ => conforms_quiet trivial fun sent => ?_⟩
          match sent with
          | .ok () => exact conforms_quiet trivial conforms_ret
          | .error _ => exact conforms_ret _
    · exact processCommand_conforms

theorem tcpServer_conforms :
    Conforms ctx.myHost ctx.myRealm (.start command)
      (TcpServerConnection.processCommand settings ctx command) := by
  unfold TcpServerConnection.processCommand
  split
  · exact conforms_quiet trivial conforms_ret
  · split
    · refine conforms_quiet trivial fun written => ?_
      match written with
      | .ok () => exact conforms_quiet trivial conforms_ret
      | .error _ => exact conforms_ret _
    · exact processCommand_conforms

theorem sctpClient_conforms :
    Conforms ctx.myHost ctx.myRealm (.start command)
      (SctpClientConnection.processCommand settings ctx command) := by
  unfold SctpClientConnection.processCommand
  split
  · split
    · exact conforms_writeControl exists_exchange_nextId
    · exact conforms_ret _
  · split
    · exact conforms_quiet trivial conforms_ret
    · exact processCommand_conforms

/-- A REST request expects its answer for this stack. -/
theorem handleDiameterRequest_conforms :
    Conforms ctx.myHost ctx.myRealm (.start command)
      (handleDiameterRequest settings ctx.myHost ctx.myRealm command) := by
  unfold handleDiameterRequest
  split
  · exact conforms_ret _
  · unfold Stage.start
    by_cases hrequest : command.isRequest
    · rw [if_pos hrequest]
      refine fun id => ⟨_, .draw, conforms_quiet trivial fun _ => ?_⟩
      show Conforms _ _ _ (if _ then _ else _)
      split
      · exact conforms_ret _
      · refine Proc.follows_prepareForAnswer (fun _ => _)
          (fun _ _ _ _ hc => .quiet hc.cleansUp.quiet)
          fun _ => ⟨_, .quiet trivial, _, .prepareOwn, conforms_sendRequest rfl fun result => ?_⟩
        match result with
        | .ok _ => exact conforms_ret _
        | .error _ => exact conforms_ret _
    · rw [if_neg hrequest]
      refine fun id => ⟨_, .drawForAnswer, conforms_quiet trivial fun _ => ?_⟩
      show Conforms _ _ _ (if (!Command.isRequest _) = true then _ else _)
      rw [if_pos]
      · exact conforms_ret _
      · show (!((command.setOriginHost _).setOriginRealm _).isRequest) = true
        rw [Command.isRequest_setOrigin]
        simpa using hrequest

/-- **Every transport follows the protocol on every command.** -/
theorem Transport.processCommand_conforms (transport : Transport) :
    Conforms ctx.myHost ctx.myRealm (.start command)
      (transport.processCommand settings ctx command) := by
  cases transport with
  | tcpClient => exact tcpClient_conforms
  | tcpServer => exact tcpServer_conforms
  | sctpClient => exact sctpClient_conforms
  | sctpServer => exact tcpServer_conforms
  | rest => exact handleDiameterRequest_conforms

/-- So does the watchdog of the clients. -/
theorem Transport.sendDwr_conforms {transport : Transport} {p : Proc (Except String Unit)}
    (h : transport.sendDwr ctx = some p) : Conforms host realm .done p := by
  cases transport with
  | tcpClient | sctpClient =>
    obtain rfl := Option.some.inj h
    exact conforms_writeControl fun _ => ⟨_, .drawMore⟩
  | tcpServer | sctpServer | rest => cases h

end

end RestDiameterBridge
