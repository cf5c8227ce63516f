import RestDiameterBridge.HttpRestListener
import RestDiameterBridge.Lib.Transition
import RestDiameterBridge.Transport.Matching
import RestDiameterBridge.Transport.PeerTransport

/-!
# RestDiameterBridge.Transport.Node

One bridge node at run time: the tasks that read its connections, and the state they
share.

A task takes one received command at a time and runs the transport's `process_command`
on it to the end before it takes the next, so while the program waits for an answer the
commands behind it stay in the inbox. `Node.step` is one step of one task (a call of its
program and the reply), a command arriving, time passing, or a connection coming or
going; labels pick the interleaving. The shared matching state replies to the calls on it
(`Node.perform`). What sockets, registry, routes, redirects and the command handler reply
is part of the label, so a run may have any of their behaviours.

`History` records what the node has done, for statements only: no step reads it.
-/

namespace RestDiameterBridge

/-- What a task serves: a connection of one of the transports, or one REST request. -/
inductive Transport
  | tcpClient
  | tcpServer
  | sctpClient
  | sctpServer
  | rest
  deriving Repr, DecidableEq

/-- The clients' read loops end when processing a command fails; the servers' log it. -/
def Transport.isClient : Transport → Bool
  | tcpClient | sctpClient => true
  | tcpServer | sctpServer | rest => false

/-- What the task does with a command it has received. -/
def Transport.processCommand (settings : SendSettings) (ctx : CommandProcessorContext)
    (command : Command) : Transport → Proc (Except String Unit)
  | tcpClient => TcpClientConnection.processCommand settings ctx command
  | tcpServer => TcpServerConnection.processCommand settings ctx command
  | sctpClient => SctpClientConnection.processCommand settings ctx command
  | sctpServer => SctpServerConnection.processCommand settings ctx command
  | rest => handleDiameterRequest settings ctx.myHost ctx.myRealm command

/-- What a client does when its timer ticks. -/
def Transport.sendDwr (ctx : CommandProcessorContext) : Transport → Option (Proc (Except String Unit))
  | tcpClient => some (TcpClientConnection.sendDwr ctx)
  | sctpClient => some (SctpClientConnection.sendDwr ctx)
  | tcpServer | sctpServer | rest => none

/-- A program at work on a command, or on a watchdog request (`none`), and the number of its
last draw of an id. -/
structure Job where
  command : Option Command
  program : Proc (Except String Unit)
  draw : Option Nat

/-- A task, with the commands it has received and not yet taken. -/
structure Task where
  transport : Transport
  peerHost : String
  peerRealm : String
  inbox : List Command
  job : Option Job

/-- An attempt to send a request: the draw that gave the request its id, and the connection
it was sent on. -/
structure Attempt where
  draw : Option Nat
  connection : Connection
  command : Command

/-- What a node has done. -/
structure History where
  /-- For each id drawn, the command it was drawn for. -/
  draws : List (Option Command)
  /-- The attempts to send a request, whatever came of them. -/
  attempts : List Attempt

/-- Nothing yet. -/
def History.empty : History := { draws := [], attempts := [] }

/-- One bridge node. -/
structure Node where
  settings : SendSettings
  myHost : String
  myRealm : String
  now : Nat
  hopByHopIds : IdGenerator
  endToEndIds : IdGenerator
  mapper : HopByHopIdMapper
  answers : AnswerManager
  tasks : AList fun _ : String => Task
  history : History

namespace Node

/-- A node without connections. -/
def new (settings : SendSettings) (myHost myRealm : String) (now : Nat) : Node :=
  { settings, myHost, myRealm, now, hopByHopIds := .new, endToEndIds := .new, mapper := .new now,
    answers := .new now, tasks := ∅, history := .empty }

/-- What happens in a node. -/
inductive Label
  | elapse (time : Nat)
  /-- A connection is set up, or a REST request comes in: a new task. -/
  | connect (id : String) (transport : Transport) (peerHost peerRealm : String)
  /-- An id is drawn outside the tasks, for a CER. -/
  | exchange
  | deliver (id : String) (command : Command)
  /-- A task takes the next command from its inbox. -/
  | process (id : String)
  /-- The watchdog timer of an idle client. -/
  | tick (id : String)
  /-- A task's program makes its next call. -/
  | run (id : String) (answer : (c : Call) → c.Reply)
  /-- The connection of an idle task ends. -/
  | disconnect (id : String)

/-- What the task's transport passes on. -/
def context (s : Node) (id : String) (t : Task) : CommandProcessorContext :=
  { connectionId := id, myHost := s.myHost, myRealm := s.myRealm, peerHost := t.peerHost,
    peerRealm := t.peerRealm }

/-- One call of a job: the reply, the job's record and the node after it. `none`: the call
does not return yet. -/
def perform (s : Node) (job : Job) (answer : (c : Call) → c.Reply) :
    (c : Call) → Option (c.Reply × Job × Node)
  | .nextId =>
      let (id, hopByHopIds) := s.hopByHopIds.nextId
      some (id, { job with draw := some s.history.draws.length },
        { s with
          hopByHopIds
          history := { s.history with draws := s.history.draws ++ [job.command] } })
  | .nextEndToEndId =>
      let (id, endToEndIds) := s.endToEndIds.nextId
      some (id, job, { s with endToEndIds })
  | .mappingsDue now =>
      let (due, mapper) := s.mapper.cleanUpDue now
      some (due, job, { s with mapper })
  | .dropMappings => some ((), job, { s with mapper := s.mapper.dropExpired s.now })
  | .addMapping newId originalId =>
      some ((), job, { s with mapper := s.mapper.insertMapping s.now newId originalId })
  | .removeMapping newId =>
      let (original, mapper) := s.mapper.removeMapping s.now newId
      some (original, job, { s with mapper })
  | .answersDue now =>
      let (due, answers) := s.answers.cleanUpDue now
      some (due, job, { s with answers })
  | .dropAnswers => some ((), job, { s with answers := s.answers.dropExpired s.now })
  | .prepareForAnswer timeout id connectionId host realm =>
      some ((), job,
        { s with answers := s.answers.insertInfo timeout id connectionId host realm })
  | .answerReceived command =>
      let (origin, answers) := s.answers.answerReceived command
      some (origin, job, { s with answers })
  | .getAnswerInfo id => some (s.answers.getAnswerInfo id, job, s)
  | .notified deadline _ info =>
      match s.answers.notified info with
      | some (command, answers) => some (some command, job, { s with answers })
      | none => if deadline ≤ s.now then some (none, job, s) else none
  | .now => some (s.now, job, s)
  | .sendWithin deadline connection command =>
      let attempted := { s with
        history := { s.history with
          attempts := s.history.attempts ++ [⟨job.draw, connection, command⟩] } }
      match answer (.sendWithin deadline connection command) with
      | some sent => some (some sent, job, attempted)
      | none => if deadline ≤ s.now then some (none, job, attempted) else none
  | c => some (answer c, job, s)

/-- Put a task's job on record, or end it: with its program's end the task is free for the
next command, unless it is a client's and the program failed. -/
def settle (s : Node) (id : String) (t : Task) (job : Job) : Node :=
  match job.program with
  | .call .. => { s with tasks := s.tasks.insert id { t with job := some job } }
  | .ret (.ok ()) => { s with tasks := s.tasks.insert id { t with job := none } }
  | .ret (.error _) =>
      if t.transport.isClient then { s with tasks := s.tasks.erase id }
      else { s with tasks := s.tasks.insert id { t with job := none } }

/-- One step of a task's program. -/
def runTask (s : Node) (id : String) (t : Task) (job : Job) (answer : (c : Call) → c.Reply) :
    Option Node :=
  match job.program with
  | .ret _ => none
  | .call c next =>
      (s.perform job answer c).map fun (reply, job, s) =>
        s.settle id t { job with program := next reply }

/-- One step of the node. -/
def step (s : Node) : Label → Option Node
  | .elapse time => some { s with now := s.now + time }
  | .connect id transport peerHost peerRealm =>
      match s.tasks.lookup id with
      | some _ => none
      | none =>
          some { s with
            tasks := s.tasks.insert id { transport, peerHost, peerRealm, inbox := [], job := none } }
  | .exchange =>
      some { s with
        hopByHopIds := s.hopByHopIds.nextId.2
        history := { s.history with draws := s.history.draws ++ [none] } }
  | .deliver id command =>
      (s.tasks.lookup id).map fun t =>
        { s with tasks := s.tasks.insert id { t with inbox := t.inbox ++ [command] } }
  | .process id =>
      match s.tasks.lookup id with
      | some t =>
          match t.job, t.inbox with
          | none, command :: inbox =>
              some (s.settle id { t with inbox }
                { command := some command
                  program := t.transport.processCommand s.settings (s.context id t) command
                  draw := none })
          | _, _ => none
      | none => none
  | .tick id =>
      match s.tasks.lookup id with
      | some t =>
          match t.job, t.inbox, t.transport.sendDwr (s.context id t) with
          | none, [], some program =>
              some (s.settle id t { command := none, program, draw := none })
          | _, _, _ => none
      | none => none
  | .run id answer =>
      match s.tasks.lookup id with
      | some t =>
          match t.job with
          | some job => s.runTask id t job answer
          | none => none
      | none => none
  | .disconnect id =>
      match s.tasks.lookup id with
      | some t =>
          match t.job, t.inbox with
          | none, [] => some { s with tasks := s.tasks.erase id }
          | _, _ => none
      | none => none

/-! ### A sample node -/

namespace Sample

def connection (id : String) : Connection :=
  .leaf { addr := 0, id, peerHost := "", peerRealm := "" }

/-- Requests are routed to the connection `next`, and all sending succeeds. -/
def replies (next : String) : (c : Call) → c.Reply
  | .getConnectionById id => some (connection id)
  | .getConnectionsForRequest _ => .ok [connection next]
  | .send .. => .ok ()
  | .sendWithin .. => some (.ok ())
  | _ => default

def request (hopByHopId : UInt32) : Command :=
  { code := 272, flags := CommandFlags.asU8 .request, applicationId := 4, hopByHopId,
    endToEndId := 1, avps := [] }

def answer (hopByHopId : UInt32) : Command := { request hopByHopId with flags := 0 }

def node : Node :=
  new { perConnTimeout := 10000, totalTimeout := 60000, retryableResultCodes := [] }
    "bridge" "home.org" 0

/-- Two peers connect. -/
def connect : List Label :=
  [.connect "a" .tcpServer "host.a" "realm.a", .connect "b" .tcpServer "host.b" "realm.b"]

/-- A request comes in on `id` and is forwarded on `next`, as far as the wait for its
answer. -/
def forward (id next : String) (hopByHopId : UInt32) : List Label :=
  [.deliver id (request hopByHopId), .process id] ++ List.replicate 14 (.run id (replies next))

/-- An answer comes in on `id` and is sent back. -/
def bringBack (id : String) (hopByHopId : UInt32) : List Label :=
  [.deliver id (answer hopByHopId), .process id] ++ List.replicate 4 (.run id (replies id))

end Sample

end Node

end RestDiameterBridge
