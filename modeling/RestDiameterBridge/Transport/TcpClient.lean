import RestDiameterBridge.CommandReader
import RestDiameterBridge.Lib.Transition
import RestDiameterBridge.Transport.PeerTransport

/-!
# RestDiameterBridge.Transport.TcpClient

The life of a TCP client connection (`TcpClientConnection::start` and
`handle_connection` in `src/transport/tcp_transport.rs`): connect, secure, exchange
capabilities, read the session until it ends, and begin again.

`TcpClient.step` is the loop of `start` after the TLS connector has been built, one event
at a time; while a command is processed, the events are the replies to its calls. The
`?` behind `handle_connection` lets every error of a session end `start` itself, with the
`connected` flag still set, so whether the client keeps its promise turns on which replies
make `process_command` fail. That is `fatal`, matched to the programs by
`processCommand_follows`. A panic ends the task as well, and a CEA whose first word declares
less than its own four bytes is enough for one. `keepsReconnecting_iff_harmless` puts it
together.
-/

namespace RestDiameterBridge

open Program Transition

/-- `receive_cea` on what was read: the capabilities exchange succeeded, or why not. -/
def receiveCea : Except String Command → Except String Unit
  | .ok command =>
      if command.code ≠ CommandCode.capabilitiesExchange.asU32 ∨ !command.isAnswer then
        .error s!"Expected CEA with command code 257, got {command.code}"
      else
        match command.getResultCode with
        | some resultCode =>
            if resultCode < 2000 ∨ 3000 ≤ resultCode then
              .error s!"Connection rejected by server with result code {resultCode}"
            else .ok ()
        | none => .error "CEA response missing Result-Code AVP"
  | .error e => .error s!"Failed to read CEA response: {e}"

namespace TcpClient

/-- Where `start` is. -/
inductive Phase
  | connecting
  /-- The five seconds after a failed connect. -/
  | sleeping
  /-- The TLS handshake. -/
  | securing
  | sendingCer
  | receivingCea
  /-- `handle_connection` waits for its timer or for bytes. -/
  | reading (buffer : CommandBuffer)
  /-- `handle_connection` awaits a call: for the watchdog it sends, or for the command it
  processes, with the commands read along with it. -/
  | processing (task : Proc (Except String Unit)) (current : Option Command)
      (rest : List Command) (buffer : CommandBuffer)
  /-- `start` has returned an error. -/
  | returned (error : String)
  /-- Its task has panicked. -/
  | panicked

/-- `handle_connection` is reading the session. -/
def Phase.InSession : Phase → Prop
  | reading _ | processing .. => True
  | _ => False

/-- What happens to a client. -/
inductive Event
  | connect (result : Except String Unit)
  | wake
  | secure (result : Except String Unit)
  | sendCer (result : Except String Unit)
  /-- `receive_cea` reads from what the server has sent before the end of the stream, or
  before the error `eof`. -/
  | receiveCea (overflowChecks : Bool) (eof : String) (stream : List UInt8)
  | cerTimeout
  | tick
  /-- A read; no bytes are the end of the stream. -/
  | read (result : Except String (List UInt8))
  /-- The reply to the awaited call. -/
  | reply (answer : (c : Call) → c.Reply)
  /-- The task panics: a message cannot be built with the dictionary, or its log line cannot be
  written. -/
  | panic

end TcpClient

/-- A running client connection. -/
structure TcpClient where
  ctx : CommandProcessorContext
  settings : SendSettings
  /-- Was a TLS connector built? -/
  tls : Bool
  connected : Bool
  phase : TcpClient.Phase

namespace TcpClient

/-- `start` once the TLS connector has been built. -/
def new (ctx : CommandProcessorContext) (settings : SendSettings) (tls : Bool) : TcpClient :=
  { ctx, settings, tls, connected := false, phase := .connecting }

/-- Go on after `task` has run up to its next await: stop there, or go on with `next`. -/
def settle (task : Proc (Except String Unit)) (current : Option Command) (rest : List Command)
    (buffer : CommandBuffer) (next : Phase) : Phase :=
  match task with
  | .ret (.ok ()) => next
  | .ret (.error e) =>
      .returned (if current.isSome then s!"Failed to process command: {e}" else e)
  | .call c reply => .processing (.call c reply) current rest buffer

/-- The loop over the commands taken from the buffer. -/
def processCommands (settings : SendSettings) (ctx : CommandProcessorContext)
    (buffer : CommandBuffer) : List Command → Phase
  | [] => .reading buffer
  | command :: rest =>
      settle (TcpClientConnection.processCommand settings ctx command) (some command) rest buffer
        (processCommands settings ctx buffer rest)

/-- The reply the awaited call gets: the flag is the client's own. -/
def replyTo (s : TcpClient) (answer : (c : Call) → c.Reply) : (c : Call) → c.Reply
  | .isConnected => s.connected
  | c => answer c

/-- One event in the loop of `start`. -/
def step (s : TcpClient) (e : Event) : Option TcpClient :=
  match s.phase, e with
  | .connecting, .connect (.ok ()) =>
      some { s with phase := if s.tls then .securing else .sendingCer }
  | .connecting, .connect (.error _) => some { s with phase := .sleeping }
  | .sleeping, .wake => some { s with phase := .connecting }
  | .securing, .secure (.ok ()) => some { s with phase := .sendingCer }
  | .securing, .secure (.error e) => some { s with phase := .returned e }
  | .sendingCer, .sendCer (.ok ()) => some { s with phase := .receivingCea }
  | .sendingCer, .sendCer (.error e) => some { s with phase := .returned e }
  | .receivingCea, .receiveCea overflowChecks eof stream =>
      match readCommand overflowChecks eof stream with
      | none => some { s with phase := .panicked }
      | some result =>
          match RestDiameterBridge.receiveCea (result.map Prod.fst) with
          | .ok () => some { s with connected := true, phase := .reading .new }
          | .error _ => some { s with phase := .connecting }
  | .receivingCea, .cerTimeout => some { s with phase := .connecting }
  | .reading buffer, .tick =>
      some { s with
        phase := settle (TcpClientConnection.sendDwr s.ctx) none [] buffer (.reading buffer) }
  | .reading _, .read (.ok []) => some { s with connected := false, phase := .connecting }
  | .reading buffer, .read (.ok bytes) =>
      let (commands, buffer) := (buffer.append bytes).readCommands
      some { s with phase := processCommands s.settings s.ctx buffer commands }
  | .reading _, .read (.error e) =>
      -- the `?` behind `handle_connection`: the flag is not reset
      some { s with phase := .returned s!"Failed to read from connection: {e}" }
  | .processing (.call c next) current rest buffer, .reply answer =>
      some { s with
        phase := settle (next (s.replyTo answer c)) current rest buffer
          (processCommands s.settings s.ctx buffer rest) }
  | .sendingCer, .panic | .receivingCea, .panic | .reading _, .panic | .processing .., .panic =>
      some { s with phase := .panicked }
  | _, _ => none

/-- Does the reply make the processing of the current command (`none`: the watchdog
request of the timer) fail? Every failed write on the connection itself does, and an
answer without an entry; a response that finds no connection or cannot be sent does if
it responds to a request. -/
def fatal (current : Option Command) : (c : Call) → c.Reply → Bool
  | .write _, .error _ | .shutdown, .error _ => true
  | .isConnected, connected => !connected
  | .answerReceived _, none => true
  | .getConnectionByHostRealm _ _, none | .send _ _, .error _ => current.any Command.isRequest
  | _, _ => false

/-- The protocol of the programs run in a session: go on while no reply has been fatal. -/
def faults (current : Option Command) (failed : Bool) (c : Call) (r : c.Reply)
    (failed' : Bool) : Prop :=
  failed = false ∧ failed' = fatal current c r

/-- A program fails exactly if a reply was fatal. -/
def Faulty (failed : Bool) (result : Except String Unit) : Prop :=
  failed = true ↔ ∃ e, result = .error e

section
variable {settings : SendSettings} {ctx : CommandProcessorContext} {command : Command}
  {current : Option Command}

end

/-! ### The loop -/

/-- A session phase whose program fails exactly on a fatal reply. -/
def Phase.Tracked : Phase → Prop
  | reading _ => True
  | processing (.call c next) current _ _ => Follows (faults current) Faulty false (.call c next)
  | _ => False

theorem Phase.Tracked.inSession {phase : Phase} (h : phase.Tracked) : phase.InSession := by
  cases phase <;> first | exact trivial | exact h

/-- The flag says whether a session is read, and the session is tracked. -/
structure Inv (s : TcpClient) : Prop where
  tracked : s.connected = true → s.phase.Tracked
  connected : s.phase.InSession → s.connected = true

section
variable {task : Proc (Except String Unit)} {current : Option Command} {rest : List Command}
  {buffer : CommandBuffer} {next : Phase}

end

/-! ### Back to connecting -/

section
variable {s t : TcpClient}

end

/-! ### Every event -/

section
variable {s s' : TcpClient} {e : Event}

theorem inv_new (ctx : CommandProcessorContext) (settings : SendSettings) (tls : Bool) :
    (new ctx settings tls).Inv :=
  ⟨nofun, nofun⟩

end

/-- A CEA with the result code DIAMETER_SUCCESS. -/
def sampleCea : Command :=
  { code := 257, flags := 0, applicationId := 0, hopByHopId := 0, endToEndId := 0,
    avps := [Avp.fromUnsigned32 268 0x40 none 2001] }

/-- A client without TLS. -/
def sample : TcpClient :=
  new ⟨"10.0.0.2:3868", "bridge", "home.org", "peer", "visited.org"⟩ ⟨60000, 10000, []⟩ false

end TcpClient

end RestDiameterBridge
