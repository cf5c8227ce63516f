import RestDiameterBridge.CommandHandler
import RestDiameterBridge.Transport.CapabilitiesExchange
import RestDiameterBridge.Transport.Course

/-!
# RestDiameterBridge.Transport.OwnAnswers

The answers this node itself makes: to control requests, to requests that loop or cannot be
delivered, and to those its backends handle.

`Command.Answers` is what ties an answer to its request: no Request bit, and the request's
code and ids. `answers_iff` says for which inputs every answer does. A client answers a
watchdog request under ids of its own, and a backend may name another command.
-/

namespace RestDiameterBridge

open Program

def Event.isWrite (e : Event) : Bool :=
  match e.1 with
  | .write _ => true
  | _ => false

/-- The answers to a request in the run of its program: the responses, and the first command
that is written to the socket the request came from. A client that closes its connection
writes a request of its own behind it. -/
def Generated (trace : List Event) (answer : Command) : Prop :=
  (∃ connection sent, ⟨.send connection answer, sent⟩ ∈ trace) ∨
    ∃ sent, trace.find? Event.isWrite = some ⟨.write answer, sent⟩

/-- What a run finds: the ids the generators give, and how the backends reply. -/
structure Given (handler : DefaultCommandHandler) (hopByHopId endToEndId : UInt32)
    (exchange : List (Sigma HttpCall.Reply)) (command : Command) (trace : List Event) : Prop where
  hopByHopId : ∀ id, ⟨.nextId, id⟩ ∈ trace → id = hopByHopId
  endToEndId : ∀ id, ⟨.nextEndToEndId, id⟩ ∈ trace → id = endToEndId
  handled : ∀ r, ⟨.handleCommand command, r⟩ ∈ trace →
    Reaches (handler.handleCommand command) exchange (.ret (some r))

/-! ### Control requests -/

section
variable {α : Type} {trace : List Event} {answer a : Command} {q : Proc α}

theorem not_generated_nil : ¬Generated [] answer := by
  intro h
  simp [Generated] at h

/-- The first thing a program does is to write a command, and it sends no response. -/
theorem generated_of_write {next : Except String Unit → Proc α}
    (h : Reaches (.call (.write a) next) trace q) (hnext : ∀ r, (next r).Uses Call.Control)
    (hgenerated : Generated trace answer) : answer = a := by
  rcases reaches_call.mp h with ⟨rfl, -⟩ | ⟨r, rest, rfl, hrest⟩
  · exact absurd hgenerated not_generated_nil
  · rcases hgenerated with ⟨connection, sent, hmem⟩ | ⟨sent, hfind⟩
    · have hlater := (List.mem_cons.mp hmem).resolve_left (by simp)
      exact ((hnext r).of_mem hrest _ hlater).elim
    · have hfirst : some (⟨.write a, r⟩ : Event) = some ⟨.write answer, sent⟩ := hfind
      cases hfirst
      rfl

/-- A call that is no write and sends no response comes before. -/
theorem Generated.of_cons {e : Event} (h : Generated (e :: trace) answer) (hcontrol : e.1.Control)
    (hwrite : e.isWrite = false) : Generated trace answer := by
  rcases h with ⟨connection, sent, hmem⟩ | ⟨sent, hfind⟩
  · rcases List.mem_cons.mp hmem with rfl | hlater
    · exact hcontrol.elim
    · exact .inl ⟨connection, sent, hlater⟩
  · rw [List.find?_cons, hwrite] at hfind
    exact .inr ⟨sent, hfind⟩

end

section
variable {ctx : CommandProcessorContext} {command answer : Command} {trace : List Event}
  {q : Proc (Except String Unit)}

/-- A control command under fresh ids is written under the ids that were drawn. -/
theorem generated_writeFresh {message : UInt32 → UInt32 → Command}
    (h : Reaches (do
      let hopByHopId ← await .nextId
      let endToEndId ← await .nextEndToEndId
      await (.write (message hopByHopId endToEndId))) trace q)
    (hgenerated : Generated trace answer) : ∃ hopByHopId endToEndId,
      ⟨.nextId, hopByHopId⟩ ∈ trace ∧ ⟨.nextEndToEndId, endToEndId⟩ ∈ trace ∧
        answer = message hopByHopId endToEndId := by
  rcases reaches_call.mp h with ⟨rfl, -⟩ | ⟨hopByHopId, rest, rfl, hrest⟩
  · exact absurd hgenerated not_generated_nil
  · replace hgenerated := hgenerated.of_cons trivial rfl
    rcases reaches_call.mp hrest with ⟨rfl, -⟩ | ⟨endToEndId, rest', rfl, hrest'⟩
    · exact absurd hgenerated not_generated_nil
    · replace hgenerated := hgenerated.of_cons trivial rfl
      exact ⟨hopByHopId, endToEndId, by simp, by simp,
        generated_of_write hrest' (fun _ => trivial) hgenerated⟩

/-- The answer to a disconnect request. -/
theorem generated_tcpClient_processDpr
    (h : Reaches (TcpClientConnection.processDpr ctx command) trace q)
    (hgenerated : Generated trace answer) : answer =
      controlAnswer .disconnectPeer command.hopByHopId command.endToEndId
        (originAnd ctx .disconnectCause 0) := by
  have huses : (TcpClientConnection.processDpr ctx command).Uses Call.Control :=
    tcpClient_processDpr_uses
  rcases reaches_call.mp h with ⟨rfl, -⟩ | ⟨connected, rest, rfl, hrest⟩
  · exact absurd hgenerated not_generated_nil
  · replace hgenerated := hgenerated.of_cons trivial rfl
    match connected with
    | false =>
      obtain ⟨rfl, -⟩ := reaches_ret.mp hrest
      exact absurd hgenerated not_generated_nil
    | true => exact generated_of_write hrest (huses.2 true).2 hgenerated

theorem generated_tcpServer_processDpr
    (h : Reaches (TcpServerConnection.processDpr ctx command) trace q)
    (hgenerated : Generated trace answer) : answer =
      controlAnswer .disconnectPeer command.hopByHopId command.endToEndId
        (originAnd ctx .resultCode 2001) :=
  generated_of_write h tcpServer_processDpr_uses.2 hgenerated

end

/-! ### Every answer -/

section
variable {settings : SendSettings} {ctx : CommandProcessorContext} {transport : Transport}
  {command answer : Command} {handler : DefaultCommandHandler} {hopByHopId endToEndId : UInt32}
  {exchange : List (Sigma HttpCall.Reply)} {trace : List Event} {q : Proc (Except String Unit)}

theorem answers_controlAnswer {code : CommandCode} {avps : List Avp}
    (hcode : command.code = code.asU32) :
    (controlAnswer code command.hopByHopId command.endToEndId avps).Answers command :=
  ⟨show ((0 : UInt8) &&& 0x80 != 0) = false by decide, hcode.symm, rfl, rfl⟩

/-- The ids of a watchdog answer of a client, by chance. -/
def DrawsItsIds (transport : Transport) (command : Command) (hopByHopId endToEndId : UInt32) :
    Prop :=
  transport.isClient = true → command.code = CommandCode.deviceWatchdog.asU32 →
    hopByHopId = command.hopByHopId ∧ endToEndId = command.endToEndId

/-- The definition that the backends name for a request for this stack has its code. -/
def NamesItsCode (handler : DefaultCommandHandler) (ctx : CommandProcessorContext)
    (command : Command) (exchange : List (Sigma HttpCall.Reply)) : Prop :=
  command.IsApplication → ctx.isLoopedRequest command = false → ctx.isMyCommand command = true →
    ∀ r, Reaches (handler.handleCommand command) exchange (.ret (some r)) →
      ∀ body d, Decides exchange body → Names handler.dictionaries command body d →
        d.code = command.code

/-- What a client does about a watchdog request. -/
theorem processCommand_watchdog_client (settings : SendSettings) (ctx : CommandProcessorContext)
    (hclient : transport.isClient = true) (hrequest : command.isRequest = true)
    (hwatchdog : command.code = CommandCode.deviceWatchdog.asU32) :
    ∃ avps, transport.processCommand settings ctx command = (do
      let hopByHopId ← await .nextId
      let endToEndId ← await .nextEndToEndId
      await (.write (controlAnswer .deviceWatchdog hopByHopId endToEndId avps))) := by
  cases transport with
  | tcpClient =>
    simp only [Transport.processCommand, TcpClientConnection.processCommand, if_pos hwatchdog,
      if_pos hrequest]
    exact ⟨_, rfl⟩
  | sctpClient =>
    simp only [Transport.processCommand, SctpClientConnection.processCommand, if_pos hwatchdog,
      if_pos hrequest]
    exact ⟨_, rfl⟩
  | tcpServer | sctpServer | rest => cases hclient

/-- A server writes its answer under the ids of the request. -/
theorem processCommand_watchdog_server (settings : SendSettings) (ctx : CommandProcessorContext)
    (hpeer : transport ≠ .rest) (hserver : transport.isClient = false)
    (hrequest : command.isRequest = true)
    (hwatchdog : command.code = CommandCode.deviceWatchdog.asU32) :
    ∃ avps, transport.processCommand settings ctx command = await (.write
      (controlAnswer .deviceWatchdog command.hopByHopId command.endToEndId avps)) := by
  cases transport with
  | tcpServer =>
    simp only [Transport.processCommand, TcpServerConnection.processCommand,
      if_pos (And.intro hwatchdog hrequest)]
    exact ⟨_, rfl⟩
  | sctpServer =>
    simp only [Transport.processCommand, SctpServerConnection.processCommand,
      if_pos (And.intro hwatchdog hrequest)]
    exact ⟨_, rfl⟩
  | tcpClient | sctpClient => cases hserver
  | rest => exact absurd rfl hpeer

theorem answers_watchdog (hpeer : transport ≠ .rest) (hrequest : command.isRequest = true)
    (hwatchdog : command.code = CommandCode.deviceWatchdog.asU32)
    (hreaches : Reaches (transport.processCommand settings ctx command) trace q)
    (hgiven : Given handler hopByHopId endToEndId exchange command trace)
    (hgenerated : Generated trace answer)
    (hids : DrawsItsIds transport command hopByHopId endToEndId) : answer.Answers command := by
  cases hclient : transport.isClient with
  | true =>
    obtain ⟨avps, hprogram⟩ :=
      processCommand_watchdog_client settings ctx hclient hrequest hwatchdog
    rw [hprogram] at hreaches
    obtain ⟨hop, endToEnd, hdrawn, hdrawn', rfl⟩ := generated_writeFresh hreaches hgenerated
    obtain ⟨hhop, hend⟩ := hids hclient hwatchdog
    rw [hgiven.hopByHopId hop hdrawn, hgiven.endToEndId endToEnd hdrawn', hhop, hend]
    exact answers_controlAnswer hwatchdog
  | false =>
    obtain ⟨avps, hprogram⟩ :=
      processCommand_watchdog_server settings ctx hpeer hclient hrequest hwatchdog
    rw [hprogram] at hreaches
    rw [generated_of_write hreaches (fun _ => trivial) hgenerated]
    exact answers_controlAnswer hwatchdog

theorem answers_disconnect (hpeer : transport ≠ .rest) (hrequest : command.isRequest = true)
    (hdisconnect : command.code = CommandCode.disconnectPeer.asU32)
    (hreaches : Reaches (transport.processCommand settings ctx command) trace q)
    (hgenerated : Generated trace answer) : answer.Answers command := by
  have hnot : command.code ≠ CommandCode.deviceWatchdog.asU32 := by
    rw [hdisconnect]
    decide
  have hboth := And.intro hdisconnect hrequest
  have hanswer : ∃ avps,
      answer = controlAnswer .disconnectPeer command.hopByHopId command.endToEndId avps := by
    cases transport with
    | tcpClient =>
      simp only [Transport.processCommand, TcpClientConnection.processCommand, if_neg hnot,
        if_pos hboth] at hreaches
      exact ⟨_, generated_tcpClient_processDpr hreaches hgenerated⟩
    | sctpClient =>
      simp only [Transport.processCommand, SctpClientConnection.processCommand, if_neg hnot,
        if_pos hboth] at hreaches
      exact ⟨_, generated_of_write hreaches (fun _ => trivial) hgenerated⟩
    | tcpServer =>
      simp only [Transport.processCommand, TcpServerConnection.processCommand, hnot, false_and,
        if_false, if_pos hboth] at hreaches
      exact ⟨_, generated_tcpServer_processDpr hreaches hgenerated⟩
    | sctpServer =>
      simp only [Transport.processCommand, SctpServerConnection.processCommand, hnot, false_and,
        if_false, if_pos hboth] at hreaches
      exact ⟨_, generated_tcpServer_processDpr hreaches hgenerated⟩
    | rest => exact absurd rfl hpeer
  obtain ⟨avps, rfl⟩ := hanswer
  exact answers_controlAnswer hdisconnect

/-- The answer to a control request. -/
theorem answers_control (hpeer : transport ≠ .rest) (hrequest : command.isRequest = true)
    (hcontrol : ¬command.IsApplication)
    (hreaches : Reaches (transport.processCommand settings ctx command) trace q)
    (hgiven : Given handler hopByHopId endToEndId exchange command trace)
    (hgenerated : Generated trace answer)
    (hids : DrawsItsIds transport command hopByHopId endToEndId) : answer.Answers command := by
  by_cases hwatchdog : command.code = CommandCode.deviceWatchdog.asU32
  · exact answers_watchdog hpeer hrequest hwatchdog hreaches hgiven hgenerated hids
  · have hdisconnect : command.code = CommandCode.disconnectPeer.asU32 := by
      by_contra hother
      exact hcontrol ⟨hwatchdog, hother⟩
    exact answers_disconnect hpeer hrequest hdisconnect hreaches hgenerated

/-- The answer to any other request. -/
theorem answers_application (hpeer : transport ≠ .rest) (hrequest : command.isRequest = true)
    (happlication : command.IsApplication)
    (hreaches : Reaches (transport.processCommand settings ctx command) trace q)
    (hgiven : Given handler hopByHopId endToEndId exchange command trace)
    (hgenerated : Generated trace answer) (hcode : NamesItsCode handler ctx command exchange) :
    answer.Answers command := by
  obtain ⟨p, hpath, -⟩ := (transport.processCommand_keeps).path hreaches
  have hrequested := path_application hpeer hrequest happlication hpath
  have hanswered : Answered ctx command trace answer := by
    rcases hgenerated with ⟨connection, sent, hmem⟩ | ⟨sent, hfind⟩
    · exact (hrequested.serves hmem).answer connection answer rfl
    · exact ((hrequested.serves (List.mem_of_find?_eq_some hfind)).write answer rfl).elim
  cases hanswered with
  | looped => exact answers_loopDetected
  | undeliverable id => exact answers_undeliverable
  | handled hlooped hmine hmem =>
    have hrun := hgiven.handled _ hmem
    rcases handleCommand_handled hrequest hrun with ⟨body, hdecides, -, heq⟩ | ⟨-, heq | ⟨e, heq⟩ | heq⟩
    · obtain ⟨read, hread, hok⟩ := Option.map_eq_some_iff.mp heq.symm
      obtain rfl : read = .ok answer := by
        cases read with
        | error e => cases hok
        | ok a =>
          have hsome : some a = some answer := Except.ok.inj hok
          rw [Option.some.inj hsome]
      obtain ⟨d, hnames, hd, hflag, hhop, hend⟩ := createAnswer_ok hread
      have hdcode := hcode happlication hlooped hmine _ hrun body d hdecides hnames
      exact ⟨hflag, hd.trans hdcode, hhop, hend⟩
    · cases heq
    · cases heq
    · cases heq
      exact Command.answers_createResponse.setAvp

/-- The run of a client's answer to a watchdog request. -/
theorem exists_watchdogAnswer (settings : SendSettings) (ctx : CommandProcessorContext)
    (hopByHopId endToEndId : UInt32) (hclient : transport.isClient = true)
    (hrequest : command.isRequest = true)
    (hwatchdog : command.code = CommandCode.deviceWatchdog.asU32) : ∃ avps q,
      Reaches (transport.processCommand settings ctx command) [⟨.nextId, hopByHopId⟩,
        ⟨.nextEndToEndId, endToEndId⟩,
        ⟨.write (controlAnswer .deviceWatchdog hopByHopId endToEndId avps), .ok ()⟩] q := by
  obtain ⟨avps, hprogram⟩ := processCommand_watchdog_client settings ctx hclient hrequest hwatchdog
  rw [hprogram]
  exact ⟨avps, _, .cons (.cons (.cons (.refl _)))⟩

theorem processCommand_of_application (hpeer : transport ≠ .rest)
    (happlication : command.IsApplication) :
    transport.processCommand settings ctx command =
      CommandProcessorContext.processCommand settings ctx command := by
  obtain ⟨hwatchdog, hdisconnect⟩ := happlication
  cases transport with
  | rest => exact absurd rfl hpeer
  | _ =>
    simp [Transport.processCommand, TcpClientConnection.processCommand,
      TcpServerConnection.processCommand, SctpClientConnection.processCommand,
      SctpServerConnection.processCommand, hwatchdog, hdisconnect]

/-- The run of an answer of the backends, to a connection that is there. -/
theorem exists_handledAnswer (settings : SendSettings) (answer : Command)
    (hpeer : transport ≠ .rest) (hrequest : command.isRequest = true)
    (happlication : command.IsApplication) (hlooped : ctx.isLoopedRequest command = false)
    (hmine : ctx.isMyCommand command = true) (connection : Connection) : ∃ q,
      Reaches (transport.processCommand settings ctx command)
        [⟨.handleCommand command, .ok (some answer)⟩,
          ⟨.getConnectionById ctx.connectionId, some connection⟩,
          ⟨.send connection answer, .ok ()⟩] q := by
  rw [processCommand_of_application hpeer happlication]
  simp only [CommandProcessorContext.processCommand, hlooped, hrequest, hmine, if_true]
  exact ⟨_, .cons (.cons (.cons (.refl _)))⟩

/-- The answer to a CER. -/
theorem answers_cea {server : DiameterServer} {named : List (String × Json)} {cer cea : Command}
    (hcode : cer.code = CommandCode.capabilitiesExchange.asU32)
    (hcea : server.createCea cer named = some cea) : cea.Answers cer := by
  simp only [DiameterServer.createCea, Option.bind_eq_bind, Option.bind_eq_some_iff,
    Option.pure_def, Option.some.injEq] at hcea
  obtain ⟨avps, -, capabilityAvps, -, rfl⟩ := hcea
  exact Command.Answers.setAvp ⟨show ((0 : UInt8) &&& 0x80 != 0) = false by decide, hcode.symm,
    rfl, rfl⟩

theorem answers_answerCer {cer : Command} {createCea : Command → OrPanic Command}
    {writeError : String → String} {peerAddress : String} {p q : Proc (Except String Command)}
    (hcreate : ∀ cea, cer.code = CommandCode.capabilitiesExchange.asU32 → createCea cer = some cea →
      cea.Answers cer)
    (hp : DiameterServer.answerCer createCea writeError peerAddress cer = some p)
    (h : Reaches p trace q) (hgenerated : Generated trace answer) : answer.Answers cer := by
  have hret : ∀ {r : Except String Command}, p = .ret r → answer.Answers cer := by
    intro r hr
    subst hr
    obtain ⟨rfl, -⟩ := reaches_ret.mp h
    exact absurd hgenerated not_generated_nil
  unfold DiameterServer.answerCer at hp
  split at hp
  · exact hret (Option.some.inj hp).symm
  · rename_i hcer
    split at hp
    · exact hret (Option.some.inj hp).symm
    · obtain ⟨cea, hcea, rfl⟩ := Option.map_eq_some_iff.mp hp
      have hcode : cer.code = CommandCode.capabilitiesExchange.asU32 := by
        by_contra hother
        exact hcer (.inl hother)
      have hanswer : answer = cea := by
        refine generated_of_write h (fun r => ?_) hgenerated
        match r with
        | .ok () | .error _ => exact trivial
      rw [hanswer]
      exact hcreate cea hcode hcea

/-- **When this node's own answers belong to their requests.** On every transport, whatever
else happens: exactly if a client's watchdog answer happens to draw the ids of the request,
and the definition that the backends name has the code of the request. The answer to a CER
always does. -/
theorem answers_iff (settings : SendSettings) (ctx : CommandProcessorContext)
    (transport : Transport) (command : Command) (handler : DefaultCommandHandler)
    (hopByHopId endToEndId : UInt32) (exchange : List (Sigma HttpCall.Reply))
    (hpeer : transport ≠ .rest) (hrequest : command.isRequest = true) :
    ((∀ trace q answer, Reaches (transport.processCommand settings ctx command) trace q →
        Given handler hopByHopId endToEndId exchange command trace → Generated trace answer →
        answer.Answers command) ↔
      DrawsItsIds transport command hopByHopId endToEndId ∧
        NamesItsCode handler ctx command exchange) ∧
    ∀ (server : DiameterServer) peerAddress cer p,
      (TcpDiameterServer.handleConnection server peerAddress cer = some p ∨
        SctpDiameterServer.handleCerExchange server peerAddress cer = some p) →
      ∀ trace q answer, Reaches p trace q → Generated trace answer → answer.Answers cer := by
  refine ⟨⟨fun h => ⟨?_, ?_⟩, ?_⟩, ?_⟩
  · intro hclient hwatchdog
    obtain ⟨avps, q, hreaches⟩ := exists_watchdogAnswer settings ctx hopByHopId endToEndId hclient
      hrequest hwatchdog
    have hanswers := h _ q _ hreaches ⟨by simp, by simp, by simp⟩ (.inr ⟨_, rfl⟩)
    exact ⟨hanswers.hopByHopId, hanswers.endToEndId⟩
  · intro happlication hlooped hmine r hrun body d hdecides hnames
    rcases handleCommand_handled hrequest hrun with ⟨body', hdecides', hno, hr⟩ | ⟨herror, -⟩
    · obtain rfl := hdecides.unique hdecides'
      obtain ⟨read, hread, hok⟩ := Option.map_eq_some_iff.mp hr.symm
      cases read with
      | error e => exact absurd hread (hno e)
      | ok answer =>
        obtain rfl : .ok (some answer) = r := hok
        obtain ⟨q, hreaches⟩ := exists_handledAnswer settings answer hpeer hrequest happlication
          hlooped hmine (Node.Sample.connection "")
        have hanswers := h _ q answer hreaches ⟨by simp, by simp, fun r hr => ?_⟩
          (.inl ⟨Node.Sample.connection "", .ok (), by simp⟩)
        · obtain ⟨d', hnames', hcode, -⟩ := createAnswer_ok hread
          rw [hnames.unique hnames'] at hcode
          exact hcode.symm.trans hanswers.code
        · have hsame : r = .ok (some answer) := by simpa using hr
          rw [hsame]
          exact hrun
    · obtain ⟨e, he⟩ := herror body hdecides
      exact absurd he (hnames.createAnswer_ne_error e)
  · intro hboth trace q answer hreaches hgiven hgenerated
    obtain ⟨hids, hcode⟩ := hboth
    by_cases happlication : command.IsApplication
    · exact answers_application hpeer hrequest happlication hreaches hgiven hgenerated hcode
    · exact answers_control hpeer hrequest happlication hreaches hgiven hgenerated hids
  · intro server peerAddress cer p hp trace q answer hreaches hgenerated
    rcases hp with hp | hp
    · exact answers_answerCer (fun cea hcode hcea => answers_cea hcode hcea) hp hreaches hgenerated
    · exact answers_answerCer (fun cea hcode hcea => answers_cea hcode hcea) hp hreaches hgenerated

end

/-! ### A watchdog request -/

namespace OwnAnswers

def context : CommandProcessorContext :=
  { connectionId := "c", myHost := "bridge", myRealm := "home.org", peerHost := "host.a"
    peerRealm := "realm.a" }

/-- A watchdog request under the ids 7 and 9. -/
def watchdog : Command := controlRequest .deviceWatchdog 7 9 []

def handler : DefaultCommandHandler where
  requestProcessors := []
  dictionaries :=
    { fmt := { standardTexts true with parseJson := fun _ => .error "" }
      commandMap := { codeToCommand := ∅, nameToCommand := ∅ }
      avpMap := { codeToAvp := ∅, nameToAvp := ∅ } }

/-- The run of a server. -/
def serverTrace : List Event :=
  [⟨.write (controlAnswer .deviceWatchdog 7 9 (originAnd context .resultCode 2001)), .ok ()⟩]

/-- The run of a client whose generators both give 0. -/
def clientTrace : List Event :=
  [⟨.nextId, (0 : UInt32)⟩, ⟨.nextEndToEndId, (0 : UInt32)⟩,
    ⟨.write (controlAnswer .deviceWatchdog 0 0 (originAvps "bridge" "home.org")), .ok ()⟩]

end OwnAnswers

open OwnAnswers in
/-- A server answers it under its ids. -/
theorem answers_iff_server :
    (controlAnswer .deviceWatchdog 7 9 (originAnd context .resultCode 2001)).Answers watchdog := by
  have hiff := (answers_iff Node.Sample.node.settings context .tcpServer watchdog handler 0 0 []
    (by decide) (by decide)).1
  have hall := hiff.mpr ⟨fun hclient => (by cases hclient), fun happlication =>
    absurd rfl happlication.1⟩
  exact hall serverTrace _ _ (.cons (.refl _)) ⟨by simp [serverTrace], by simp [serverTrace],
    by simp [serverTrace]⟩ (.inr ⟨_, rfl⟩)

open OwnAnswers in
/-- A client answers it under other ids. -/
theorem not_answers_client :
    Reaches (Transport.tcpClient.processCommand Node.Sample.node.settings context watchdog) clientTrace
        (.ret (.ok ())) ∧
      Generated clientTrace (controlAnswer .deviceWatchdog 0 0 (originAvps "bridge" "home.org")) ∧
      ¬(controlAnswer .deviceWatchdog 0 0 (originAvps "bridge" "home.org")).Answers watchdog := by
  refine ⟨.cons (.cons (.cons (.refl _))), .inr ⟨_, rfl⟩, fun hanswers => ?_⟩
  exact absurd hanswers.hopByHopId (by decide)

end RestDiameterBridge
