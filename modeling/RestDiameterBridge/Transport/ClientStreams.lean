import RestDiameterBridge.Transport.Handshake

/-!
# RestDiameterBridge.Transport.ClientStreams

What a TCP client writes on its streams (`writer` of `TcpClientConnection` in
`src/transport/tcp_transport.rs`).

Every task of the bridge may `send` on the connection, and its own task, which runs `start`,
writes the CER, the watchdog messages and the DPR. All of them lock the one writer, write their
command piece by piece and let go of it; a write may fail, and that of a task under a `timeout`
may be given up. `start` puts a new writer behind the lock when it has connected again. The flag
that keeps commands back until the CEA has been accepted is read before the lock is taken, so a
task may be let write on one stream and get the lock on a later one.

`PeerStream.Sound` says what a stream carries and in which order its writes began, and
`streams_of_run` that every stream of every run is sound: its own lemmas are those of the
operations on a stream, the invariant of the run is `ClientStreams.Inv`.
-/

namespace RestDiameterBridge

open Program Transition

/-! ### Streams -/

/-- A write that got the lock. -/
structure StreamWrite (τ : Type) where
  /-- The connection's own task is `none`. -/
  task : Option τ
  command : Command
  /-- How many streams had been opened when the task was let write. -/
  opened : Nat
  /-- Had the CEA of the stream been accepted when it got the lock? -/
  inSession : Bool
  /-- The bytes of the command written so far. -/
  written : Nat

namespace StreamWrite

variable {τ : Type}

def bytes (w : StreamWrite τ) : List UInt8 := w.command.encode.take w.written

def rest (w : StreamWrite τ) : List UInt8 := w.command.encode.drop w.written

/-- The whole command has been written. -/
def Whole (w : StreamWrite τ) : Prop := w.command.encode.length ≤ w.written

instance (w : StreamWrite τ) : Decidable w.Whole := inferInstanceAs (Decidable (_ ≤ _))

/-- The CER of the client itself. -/
def IsOwnCer (w : StreamWrite τ) : Prop :=
  w.task = none ∧ w.command.code = CommandCode.capabilitiesExchange.asU32

end StreamWrite

/-- The write half of a connected socket. -/
structure PeerStream (τ : Type) where
  /-- The streams opened before it. -/
  number : Nat
  bytes : List UInt8
  /-- The writes that are over, in order. -/
  writes : List (StreamWrite τ)
  /-- The write that holds the lock. -/
  current : Option (StreamWrite τ)
  /-- Has the CEA been accepted? -/
  accepted : Bool

namespace PeerStream

variable {τ : Type}

def new (number : Nat) : PeerStream τ :=
  { number, bytes := [], writes := [], current := none, accepted := false }

/-- The writes that got the lock, in order. -/
def begun (stream : PeerStream τ) : List (StreamWrite τ) := stream.writes ++ stream.current.toList

/-- A task gets the lock. -/
def lock (stream : PeerStream τ) (task : Option τ) (command : Command) (opened : Nat) :
    Option (PeerStream τ) :=
  match stream.current with
  | none => some { stream with current := some ⟨task, command, opened, stream.accepted, 0⟩ }
  | some _ => none

/-- The socket takes the next `n` bytes. -/
def push (stream : PeerStream τ) (n : Nat) : Option (PeerStream τ) :=
  match stream.current with
  | none => none
  | some w =>
      some { stream with
        bytes := stream.bytes ++ w.rest.take n
        current := some { w with written := w.written + n } }

/-- The lock is released. -/
def unlock (stream : PeerStream τ) : PeerStream τ :=
  { stream with writes := stream.begun, current := none }

def accept (stream : PeerStream τ) : PeerStream τ := { stream with accepted := true }

end PeerStream

/-! ### What a stream carries -/

/-- Why a write on the stream may begin behind others: it was let write while an earlier stream
was up, or it sends a CER, or the client's own CER is out and either the CEA was accepted or the
client gives the stream up. -/
def StreamWrite.Admissible {τ : Type} (number : Nat) (before : List (StreamWrite τ))
    (w : StreamWrite τ) : Prop :=
  (w.task.isSome ∧ w.opened ≤ number) ∨
    w.command.code = CommandCode.capabilitiesExchange.asU32 ∨
    (∃ cer ∈ before, cer.IsOwnCer ∧ cer.Whole) ∧
      (w.inSession = true ∨ w.task = none ∧ w.command.code = CommandCode.disconnectPeer.asU32)

/-- Each write was admissible where it began. -/
def Orderly {τ : Type} (number : Nat) (writes : List (StreamWrite τ)) : Prop :=
  ∀ before w after, writes = before ++ w :: after → w.Admissible number before

theorem orderly_nil {τ : Type} (number : Nat) : Orderly number ([] : List (StreamWrite τ)) := by
  intro before w after h
  simp at h

theorem orderly_concat {τ : Type} {number : Nat} {writes : List (StreamWrite τ)}
    {w : StreamWrite τ} :
    Orderly number (writes ++ [w]) ↔ Orderly number writes ∧ w.Admissible number writes := by
  constructor
  · intro h
    exact ⟨fun before x after hx => h before x (after ++ [w]) (by rw [hx]; simp), h writes w [] rfl⟩
  · intro h before x after hx
    obtain ⟨hwrites, hw⟩ := h
    rcases List.eq_nil_or_concat after with rfl | ⟨after, y, rfl⟩
    · obtain ⟨rfl, hxw⟩ := List.append_inj' hx rfl
      obtain rfl := List.cons.inj hxw |>.1
      exact hw
    · rw [List.concat_eq_append, ← List.cons_append, ← List.append_assoc] at hx
      exact hwrites before x after (List.append_inj' hx rfl).1

namespace PeerStream

variable {τ : Type} {stream stream' : PeerStream τ}

/-- The client's own CER is out. -/
def CerWritten (stream : PeerStream τ) : Prop := ∃ cer ∈ stream.writes, cer.IsOwnCer ∧ cer.Whole

/-- The stream carries what was written of each command, in the order of the locks, and each write
was admissible where it began. -/
structure Sound (stream : PeerStream τ) : Prop where
  bytes : stream.bytes = stream.begun.flatMap StreamWrite.bytes
  orderly : Orderly stream.number stream.begun
  accepted : stream.accepted = true → stream.CerWritten
  session : ∀ w ∈ stream.begun, w.inSession = true → stream.accepted = true

theorem sound_new (number : Nat) : (new number : PeerStream τ).Sound :=
  ⟨rfl, orderly_nil number, nofun, nofun⟩

theorem Sound.accept (h : stream.Sound) (hcer : stream.CerWritten) : stream.accept.Sound :=
  ⟨h.bytes, h.orderly, fun _ => hcer, fun _ _ _ => rfl⟩

theorem begun_unlock : stream.unlock.begun = stream.begun := List.append_nil _

theorem CerWritten.unlock (h : stream.CerWritten) : stream.unlock.CerWritten := by
  obtain ⟨cer, hmem, hcer⟩ := h
  exact ⟨cer, List.mem_append_left _ hmem, hcer⟩

theorem Sound.unlock (h : stream.Sound) : stream.unlock.Sound where
  bytes := by rw [begun_unlock]; exact h.bytes
  orderly := by rw [begun_unlock]; exact h.orderly
  accepted haccepted := (h.accepted haccepted).unlock
  session := by rw [begun_unlock]; exact h.session

/-- The end of a whole write of the client itself: its CER is out. -/
theorem Sound.cerWritten_unlock (h : stream.Sound) {w : StreamWrite τ}
    (hcurrent : stream.current = some w) (hown : w.task = none) (hwhole : w.Whole) :
    stream.unlock.CerWritten := by
  have hbegun : stream.begun = stream.writes ++ [w] := by rw [begun, hcurrent]; rfl
  have hadmissible := (orderly_concat.mp (hbegun ▸ h.orderly)).2
  rcases hadmissible with ⟨hother, -⟩ | hcode | ⟨hwritten, -⟩
  · simp [hown] at hother
  · exact ⟨w, by rw [PeerStream.unlock, hbegun]; simp, ⟨hown, hcode⟩, hwhole⟩
  · exact CerWritten.unlock hwritten

/-- Getting the lock. -/
theorem lock_eq_some {task : Option τ} {command : Command} {opened : Nat}
    (h : stream.lock task command opened = some stream') :
    stream.current = none ∧
      stream' = { stream with current := some ⟨task, command, opened, stream.accepted, 0⟩ } := by
  rw [lock] at h
  split at h
  · exact ⟨‹_›, (Option.some.inj h).symm⟩
  · cases h

theorem Sound.lock (h : stream.Sound) {task : Option τ} {command : Command} {opened : Nat}
    (hlock : stream.lock task command opened = some stream')
    (hadmissible : (⟨task, command, opened, stream.accepted, 0⟩ : StreamWrite τ).Admissible
      stream.number stream.writes) : stream'.Sound := by
  obtain ⟨hfree, rfl⟩ := lock_eq_some hlock
  have hbegun : stream.begun = stream.writes := by rw [begun, hfree]; exact List.append_nil _
  refine ⟨?_, orderly_concat.mpr ⟨hbegun ▸ h.orderly, hadmissible⟩, h.accepted, ?_⟩
  · show stream.bytes = (stream.writes ++ [_]).flatMap StreamWrite.bytes
    rw [h.bytes, hbegun, List.flatMap_append]
    simp [StreamWrite.bytes]
  · refine List.forall_mem_append.mpr ⟨hbegun ▸ h.session, List.forall_mem_singleton.mpr id⟩

/-- The socket takes bytes. -/
theorem push_eq_some {n : Nat} (h : stream.push n = some stream') :
    ∃ w, stream.current = some w ∧ stream' = { stream with
      bytes := stream.bytes ++ w.rest.take n
      current := some { w with written := w.written + n } } := by
  rw [push] at h
  split at h
  · cases h
  · exact ⟨_, ‹_›, (Option.some.inj h).symm⟩

theorem Sound.push (h : stream.Sound) {n : Nat} (hpush : stream.push n = some stream') :
    stream'.Sound := by
  obtain ⟨w, hcurrent, rfl⟩ := push_eq_some hpush
  have hbegun : stream.begun = stream.writes ++ [w] := by rw [begun, hcurrent]; rfl
  obtain ⟨hwrites, hadmissible⟩ := orderly_concat.mp (hbegun ▸ h.orderly)
  refine ⟨?_, orderly_concat.mpr ⟨hwrites, hadmissible⟩, h.accepted, ?_⟩
  · show stream.bytes ++ w.rest.take n = (stream.writes ++ [_]).flatMap StreamWrite.bytes
    rw [h.bytes, hbegun, List.flatMap_append, List.flatMap_append, List.append_assoc]
    simp [StreamWrite.bytes, StreamWrite.rest, List.take_add]
  · have hsession := h.session
    rw [hbegun, List.forall_mem_append, List.forall_mem_singleton] at hsession
    exact List.forall_mem_append.mpr ⟨hsession.1, List.forall_mem_singleton.mpr hsession.2⟩

end PeerStream

/-! ### The client and its senders -/

/-- Where the client's own task is. -/
inductive OwnStage
  /-- At an await of `TcpClient`. -/
  | client
  /-- It waits for the lock, to put the writer of the new connection behind it. -/
  | opening
  | sendingCer (task : Proc (OrPanic (Except String Unit)))
  /-- The `close` behind a failed capabilities exchange. -/
  | closing (task : Proc (Except String Unit))
  | panicked

/-- A client connection, with the tasks `τ` that send on it. -/
structure ClientStreams (τ : Type) where
  config : DiameterClient
  client : TcpClient
  own : OwnStage
  /-- The newest one first: it is behind the lock. -/
  streams : List (PeerStream τ)
  /-- The calls of `send` that have passed the check of the flag, with their command and the
  streams that had been opened then. -/
  senders : τ → Option (Command × Nat)

namespace ClientStreams

variable {τ : Type} [DecidableEq τ]

/-- `start` once the TLS connector has been built. -/
def new (config : DiameterClient) (ctx : CommandProcessorContext) (settings : SendSettings)
    (tls : Bool) : ClientStreams τ :=
  { config, client := .new ctx settings tls, own := .client, streams := []
    senders := fun _ => none }

inductive Label (τ : Type)
  /-- Something happens to the own task. -/
  | own (e : TcpClient.Event)
  /-- The own task replaces the writer. -/
  | replace
  /-- A task calls `send`. -/
  | send (task : τ) (command : Command)
  /-- A task gets the lock of the writer. -/
  | lock (task : Option τ)
  /-- The socket takes bytes of the command that is being written. -/
  | write (n : Nat)
  /-- The `send` of the task is over: it returns, or its `timeout` drops it. -/
  | leave (task : τ)

/-- Do something with the stream behind the lock. -/
def onStream (s : ClientStreams τ) (f : PeerStream τ → Option (PeerStream τ)) :
    Option (ClientStreams τ) :=
  match s.streams with
  | [] => none
  | stream :: earlier => (f stream).map fun stream => { s with streams := stream :: earlier }

/-- The write that holds the lock. -/
def writing (s : ClientStreams τ) : Option (StreamWrite τ) := s.streams.head?.bind (·.current)

/-- The call that the own task awaits. -/
def ownCall (s : ClientStreams τ) : Option Call :=
  match s.own with
  | .sendingCer (.call c _) | .closing (.call c _) => some c
  | .client =>
      match s.client.phase with
      | .processing (.call c _) _ _ _ => some c
      | _ => none
  | _ => none

/-- Go on with `send_cer`. -/
def runCer (s : ClientStreams τ) : Proc (OrPanic (Except String Unit)) → Option (ClientStreams τ)
  | .ret none => some { s with own := .panicked }
  | .ret (some result) =>
      (s.client.step (.sendCer result)).map fun client => { s with client, own := .client }
  | .call c next => some { s with own := .sendingCer (.call c next) }

/-- Go on with `close`, whatever it returns. -/
def runClose (s : ClientStreams τ) : Proc (Except String Unit) → ClientStreams τ
  | .ret _ => { s with own := .client }
  | .call c next => { s with own := .closing (.call c next) }

/-- The own task after an event. -/
def follow (s : ClientStreams τ) (client : TcpClient) : Option (ClientStreams τ) :=
  match s.client.phase, client.phase with
  | .receivingCea, .reading _ =>
      { s with client, own := .client }.onStream fun stream => some stream.accept
  | .receivingCea, .connecting =>
      some ({ s with client }.runClose (TcpClientConnection.close client.ctx))
  | _, .sendingCer => some { s with client, own := .opening }
  | _, _ => some { s with client, own := .client }

/-- The own task gets the reply to the call it awaits. -/
def resume (s : ClientStreams τ) (answer : (c : Call) → c.Reply) : Option (ClientStreams τ) :=
  match s.own with
  | .sendingCer (.call c next) => s.runCer (next (s.client.replyTo answer c))
  | .closing (.call c next) => some (s.runClose (next (s.client.replyTo answer c)))
  | .client => (s.client.step (.reply answer)).bind s.follow
  | _ => none

/-- A reply. That to a write lets go of the lock, and comes behind the last byte or is an error. -/
def reply (s : ClientStreams τ) (answer : (c : Call) → c.Reply) : Option (ClientStreams τ) :=
  match s.ownCall with
  | some (.write command) =>
      match s.writing with
      | some w =>
          if w.task.isSome ∨ ((answer (.write command)).toBool ∧ ¬w.Whole) then none
          else (s.onStream fun stream => some stream.unlock).bind fun s => s.resume answer
      | none => none
  | some .shutdown => if s.writing.isNone then s.resume answer else none
  | some _ => s.resume answer
  | none => none

/-- One step. -/
def step (s : ClientStreams τ) : Label τ → Option (ClientStreams τ)
  | .own (.reply answer) => s.reply answer
  | .own (.sendCer _) => none
  | .own .panic =>
      match s.own with
      -- the log line with a message is written before its lock is taken
      | .client =>
          if s.writing.any fun w => w.task.isNone then none
          else (s.client.step .panic).bind s.follow
      | .closing _ =>
          if s.writing.any fun w => w.task.isNone then none else some { s with own := .panicked }
      | _ => none
  | .own e =>
      match s.own with
      | .client => (s.client.step e).bind s.follow
      | _ => none
  | .replace =>
      match s.own, s.writing with
      | .opening, none =>
          { s with streams := .new s.streams.length :: s.streams }.runCer
            (TcpClientConnection.sendCer s.config)
      | _, _ => none
  | .send task command =>
      if s.senders task = none ∧
          (command.code = CommandCode.capabilitiesExchange.asU32 ∨ s.client.connected) then
        some { s with
          senders := Function.update s.senders task (some (command, s.streams.length)) }
      else none
  | .lock none =>
      match s.ownCall with
      | some (.write command) =>
          s.onStream fun stream => stream.lock none command s.streams.length
      | _ => none
  | .lock (some task) =>
      match s.senders task with
      | some (command, opened) => s.onStream fun stream => stream.lock (some task) command opened
      | none => none
  | .write n => s.onStream fun stream => stream.push n
  | .leave task =>
      let s' := { s with senders := Function.update s.senders task none }
      -- the guard is dropped with the call
      if s.writing.any fun w => w.task = some task then s'.onStream fun stream => some stream.unlock
      else some s'

end ClientStreams

/-! ### The flag -/

namespace TcpClient

/-- A connection is being set up. -/
def Phase.SettingUp : Phase → Prop
  | connecting | sleeping | securing | sendingCer | receivingCea => True
  | _ => False

theorem Phase.SettingUp.not_inSession {phase : Phase} (h : phase.SettingUp) :
    ¬phase.InSession := by
  cases phase <;> first | exact id | exact h.elim

/-- `start` has returned, or its task has panicked. -/
def Phase.Over : Phase → Prop
  | returned _ | panicked => True
  | _ => False

theorem Phase.Over.not_inSession {phase : Phase} (h : phase.Over) : ¬phase.InSession := by
  cases phase <;> first | exact id | exact h.elim

theorem Phase.Over.not_settingUp {phase : Phase} (h : phase.Over) : ¬phase.SettingUp := by
  cases phase <;> first | exact id | exact h.elim

/-- The flag is off while a connection is set up and on while its session is read. -/
structure FlagTells (s : TcpClient) : Prop where
  off : s.phase.SettingUp → s.connected = false
  on : s.phase.InSession → s.connected = true

variable {s s' : TcpClient} {e : Event}

theorem settle_inSession {task : Proc (Except String Unit)} {current : Option Command}
    {rest : List Command} {buffer : CommandBuffer} {next : Phase}
    (hnext : next.InSession ∨ next.Over) :
    (settle task current rest buffer next).InSession ∨
      (settle task current rest buffer next).Over := by
  match task with
  | .ret (.ok ()) => exact hnext
  | .ret (.error e) => exact .inr trivial
  | .call c reply => exact .inl trivial

theorem processCommands_inSession {settings : SendSettings} {ctx : CommandProcessorContext}
    {buffer : CommandBuffer} (commands : List Command) :
    (processCommands settings ctx buffer commands).InSession ∨
      (processCommands settings ctx buffer commands).Over := by
  induction commands with
  | nil => exact .inl trivial
  | cons command rest ih => exact settle_inSession ih

/-- What an event does to the flag and the phase. -/
theorem step_cases (h : s.step e = some s') :
    (s.phase.SettingUp ∧ s'.connected = s.connected ∧ (s'.phase.Over ∨
      s'.phase.SettingUp ∧ (s'.phase = .receivingCea → e = .sendCer (.ok ())))) ∨
    (s.phase = .receivingCea ∧ s'.connected = true ∧ s'.phase = .reading .new ∧
      ∃ overflowChecks eof stream, e = .receiveCea overflowChecks eof stream) ∨
    (s.phase.InSession ∧ s'.connected = s.connected ∧ (s'.phase.InSession ∨ s'.phase.Over)) ∨
    (s.phase.InSession ∧ s'.connected = false ∧ s'.phase = .connecting) := by
  have hsetup : ∀ {phase : Phase}, s.phase = phase → phase.SettingUp → s.phase.SettingUp :=
    fun hphase hup => hphase ▸ hup
  have hsession : ∀ {phase : Phase}, s.phase = phase → phase.InSession → s.phase.InSession :=
    fun hphase hin => hphase ▸ hin
  unfold step at h
  split at h
  case h_1 =>
    rename_i hphase
    obtain rfl := Option.some.inj h
    refine .inl ⟨hsetup hphase trivial, rfl, .inr ?_⟩
    cases s.tls <;> exact ⟨trivial, fun hp => by cases hp⟩
  case h_2 | h_3 | h_4 | h_9 =>
    rename_i hphase
    obtain rfl := Option.some.inj h
    exact .inl ⟨hsetup hphase trivial, rfl, .inr ⟨trivial, fun hp => by cases hp⟩⟩
  case h_5 | h_7 | h_15 | h_16 =>
    rename_i hphase
    obtain rfl := Option.some.inj h
    exact .inl ⟨hsetup hphase trivial, rfl, .inl trivial⟩
  case h_6 =>
    rename_i hphase
    obtain rfl := Option.some.inj h
    exact .inl ⟨hsetup hphase trivial, rfl, .inr ⟨trivial, fun _ => rfl⟩⟩
  case h_8 =>
    rename_i hphase
    split at h
    · obtain rfl := Option.some.inj h
      exact .inl ⟨hsetup hphase trivial, rfl, .inl trivial⟩
    · split at h
      · obtain rfl := Option.some.inj h
        exact .inr (.inl ⟨hphase, rfl, rfl, _, _, _, rfl⟩)
      · obtain rfl := Option.some.inj h
        exact .inl ⟨hsetup hphase trivial, rfl, .inr ⟨trivial, fun hp => by cases hp⟩⟩
  case h_10 =>
    rename_i buffer hphase
    obtain rfl := Option.some.inj h
    exact .inr (.inr (.inl ⟨hsession hphase trivial, rfl,
      @settle_inSession (TcpClientConnection.sendDwr s.ctx) none [] buffer (.reading buffer)
        (.inl trivial)⟩))
  case h_11 =>
    rename_i hphase
    obtain rfl := Option.some.inj h
    exact .inr (.inr (.inr ⟨hsession hphase trivial, rfl, rfl⟩))
  case h_12 =>
    rename_i hphase
    obtain rfl := Option.some.inj h
    exact .inr (.inr (.inl ⟨hsession hphase trivial, rfl, processCommands_inSession _⟩))
  case h_13 =>
    rename_i hphase
    obtain rfl := Option.some.inj h
    exact .inr (.inr (.inl ⟨hsession hphase trivial, rfl, .inr trivial⟩))
  case h_17 | h_18 =>
    rename_i hphase
    obtain rfl := Option.some.inj h
    exact .inr (.inr (.inl ⟨hsession hphase trivial, rfl, .inr trivial⟩))
  case h_14 =>
    rename_i hphase
    obtain rfl := Option.some.inj h
    exact .inr (.inr (.inl ⟨hsession hphase trivial, rfl,
      settle_inSession (processCommands_inSession _)⟩))
  case h_19 => cases h

/-- The CEA is awaited behind the CER. -/
theorem eq_sendCer_of_receivingCea (h : s.step e = some s') (hphase : s'.phase = .receivingCea) :
    e = .sendCer (.ok ()) := by
  rcases step_cases h with ⟨-, -, hover | ⟨-, hevent⟩⟩ | ⟨-, -, hreading, -⟩ |
    ⟨-, -, hin | hover⟩ | ⟨-, -, hconnecting⟩
  · exact absurd (by rw [hphase]; exact trivial) hover.not_settingUp
  · exact hevent hphase
  · cases hreading.symm.trans hphase
  · exact absurd hin (by rw [hphase]; exact id)
  · exact absurd (by rw [hphase]; exact trivial) hover.not_settingUp
  · cases hconnecting.symm.trans hphase

theorem FlagTells.step (h : s.FlagTells) (hstep : s.step e = some s') : s'.FlagTells := by
  rcases step_cases hstep with ⟨hup, hsame, hnext⟩ | ⟨-, hon, hphase, -⟩ | ⟨hin, hsame, hnext⟩ |
    ⟨-, hoff, hphase⟩
  · refine ⟨fun _ => hsame.trans (h.off hup), fun hin => ?_⟩
    rcases hnext with hover | ⟨hup', -⟩
    · exact absurd hin hover.not_inSession
    · exact absurd hin hup'.not_inSession
  · exact ⟨fun hup => absurd hup (by rw [hphase]; exact id), fun _ => hon⟩
  · refine ⟨fun hup => ?_, fun _ => hsame.trans (h.on hin)⟩
    rcases hnext with hin' | hover
    · exact absurd hin' hup.not_inSession
    · exact absurd hup hover.not_settingUp
  · exact ⟨fun _ => hoff, fun hin => absurd hin (by rw [hphase]; exact id)⟩

end TcpClient

/-! ### Runs -/

/-- The protocol of `send_cer`: only a CER is written, and `written` says that it has been. -/
def cerProtocol (written : Bool) (c : Call) (r : c.Reply) (written' : Bool) : Prop :=
  match c, r with
  | .write command, r =>
      command.code = CommandCode.capabilitiesExchange.asU32 ∧ written' = r.toBool
  | _, _ => written' = written

/-- A `send_cer` that returns `Ok` has written its CER. -/
def CerSent (written : Bool) (result : OrPanic (Except String Unit)) : Prop :=
  result = some (.ok ()) → written = true

/-- A call that writes nothing but a DPR. -/
def WritesDpr : Call → Prop
  | .write command => command.code = CommandCode.disconnectPeer.asU32
  | _ => True

theorem send_follows {command : Command}
    (hcode : command.code = CommandCode.capabilitiesExchange.asU32) :
    Follows cerProtocol (fun written result => result = .ok () → written = true) false
      (TcpClientConnection.send command) := by
  refine fun connected => ⟨false, rfl, ?_⟩
  show Follows _ _ false (if _ then _ else _)
  rw [if_neg fun h => h.1 hcode]
  exact fun result => ⟨result.toBool, ⟨hcode, rfl⟩, fun hok => hok ▸ rfl⟩

theorem sendCer_follows (config : DiameterClient) :
    Follows cerProtocol CerSent false (TcpClientConnection.sendCer config) := by
  rw [TcpClientConnection.sendCer, DiameterClient.sendCer]
  cases config.cerAvps with
  | none => exact fun hok => by cases hok
  | some avps =>
    refine fun hopByHopId => ⟨false, rfl, fun endToEndId => ⟨false, rfl, ?_⟩⟩
    show Follows cerProtocol CerSent false (if _ then _ else _)
    split
    · exact fun hok => by cases hok
    · exact (send_follows rfl).bind fun written result hsent hok => hsent (Option.some.inj hok)

theorem close_writesDpr (ctx : CommandProcessorContext) :
    (TcpClientConnection.close ctx).Uses WritesDpr := by
  refine ⟨trivial, fun hopByHopId => ⟨trivial, fun endToEndId => ⟨rfl, fun written => ?_⟩⟩⟩
  match written with
  | .ok () => exact ⟨trivial, fun _ => trivial⟩
  | .error e => exact trivial

namespace ClientStreams

variable {τ : Type} {s s' : ClientStreams τ}

/-- The CEA of the newest stream has been accepted. -/
def Accepted (s : ClientStreams τ) : Prop := ∃ stream ∈ s.streams.head?, stream.accepted = true

/-- The client's own CER is out on the newest stream. -/
def CerOut (s : ClientStreams τ) : Prop := ∃ stream ∈ s.streams.head?, stream.CerWritten

/-- What the own task knows about the newest stream where it is. -/
def OwnStage.Knows (s : ClientStreams τ) : OwnStage → Prop
  | .client => s.client.phase = .receivingCea → s.CerOut
  | .opening => s.client.phase = .sendingCer
  | .sendingCer task =>
      ∃ written, Follows cerProtocol CerSent written task ∧ (written = true → s.CerOut)
  | .closing task => task.Uses WritesDpr ∧ s.CerOut
  | .panicked => True

/-- Why a sender was let write. -/
def Admits (s : ClientStreams τ) (command : Command) (opened : Nat) : Prop :=
  opened < s.streams.length ∨ command.code = CommandCode.capabilitiesExchange.asU32 ∨ s.Accepted

/-- What every step keeps, wherever the own task is. -/
structure Base (s : ClientStreams τ) : Prop where
  sound : ∀ stream ∈ s.streams, stream.Sound
  number : ∀ stream ∈ s.streams.head?, stream.number + 1 = s.streams.length
  flag : s.client.FlagTells
  session : s.client.connected = true → s.Accepted
  senders : ∀ {task command opened}, s.senders task = some (command, opened) →
    opened ≤ s.streams.length ∧ s.Admits command opened

/-- What every step keeps. -/
structure Inv (s : ClientStreams τ) : Prop extends s.Base where
  own : OwnStage.Knows s s.own

/-- The stream behind the lock. -/
theorem onStream_eq_some {f : PeerStream τ → Option (PeerStream τ)} (h : s.onStream f = some s') :
    ∃ stream earlier stream', s.streams = stream :: earlier ∧ f stream = some stream' ∧
      s' = { s with streams := stream' :: earlier } := by
  rw [onStream] at h
  split at h
  · cases h
  · obtain ⟨stream', hf, rfl⟩ := Option.map_eq_some_iff.mp h
    exact ⟨_, _, stream', ‹_›, hf, rfl⟩

section
variable {stream stream' : PeerStream τ} {earlier : List (PeerStream τ)}

theorem accepted_iff (h : s.streams = stream :: earlier) : s.Accepted ↔ stream.accepted = true := by
  simp [Accepted, h]

theorem cerOut_iff (h : s.streams = stream :: earlier) : s.CerOut ↔ stream.CerWritten := by
  simp [CerOut, h]

theorem OwnStage.Knows.mono {stage : OwnStage} (h : OwnStage.Knows s stage)
    (hclient : s'.client = s.client) (hout : s.CerOut → s'.CerOut) : OwnStage.Knows s' stage := by
  match stage with
  | .client => exact fun hphase => hout (h (hclient ▸ hphase))
  | .opening => exact (congrArg TcpClient.phase hclient).trans h
  | .sendingCer task =>
    obtain ⟨written, hfollows, hsent⟩ := h
    exact ⟨written, hfollows, fun hwritten => hout (hsent hwritten)⟩
  | .closing task => exact ⟨h.1, hout h.2⟩
  | .panicked => trivial

/-- An operation on the stream behind the lock. -/
theorem Inv.setStream (h : s.Inv) (hstreams : s.streams = stream :: earlier)
    (hsound : stream'.Sound) (hnumber : stream'.number = stream.number)
    (haccepted : stream.accepted = true → stream'.accepted = true)
    (hwritten : stream.CerWritten → stream'.CerWritten) :
    ({ s with streams := stream' :: earlier } : ClientStreams τ).Inv := by
  have hlength : s.streams.length = (stream' :: earlier).length := by rw [hstreams]; rfl
  have hstays : s.Accepted →
      ({ s with streams := stream' :: earlier } : ClientStreams τ).Accepted := by
    rw [accepted_iff hstreams, accepted_iff rfl]
    exact haccepted
  refine ⟨⟨?_, ?_, h.flag, fun hon => hstays (h.session hon), ?_⟩, h.own.mono rfl fun hout => ?_⟩
  · intro other hother
    rcases List.mem_cons.mp hother with rfl | hother
    · exact hsound
    · exact h.sound other (by rw [hstreams]; exact List.mem_cons_of_mem _ hother)
  · intro other hother
    obtain rfl := Option.some.inj hother
    rw [hnumber]
    exact (h.number stream (by rw [hstreams]; rfl)).trans hlength
  · intro task command opened hsender
    obtain ⟨hle, hadmits⟩ := h.senders hsender
    rw [Admits, hlength] at hadmits
    exact ⟨hlength ▸ hle, hadmits.imp_right fun hor => hor.imp_right hstays⟩
  · rw [cerOut_iff hstreams] at hout
    exact (cerOut_iff rfl).mpr (hwritten hout)

end

section
variable {client : TcpClient} {e : TcpClient.Event}

/-- An event that sets the flag accepts the CEA. -/
theorem Base.setClient (h : s.Base) (stage : OwnStage) (hstep : s.client.step e = some client)
    (hsession : s.client.phase = .receivingCea → client.phase = .reading .new →
      (∃ overflowChecks eof stream, e = .receiveCea overflowChecks eof stream) → s.Accepted) :
    ({ s with client, own := stage } : ClientStreams τ).Base := by
  refine ⟨h.sound, h.number, h.flag.step hstep, fun hon => ?_, h.senders⟩
  rcases TcpClient.step_cases hstep with ⟨-, hsame, -⟩ | ⟨hphase, -, hreading, hevent⟩ |
    ⟨-, hsame, -⟩ | ⟨-, hoff, -⟩
  · exact h.session (hsame ▸ hon)
  · exact hsession hphase hreading hevent
  · exact h.session (hsame ▸ hon)
  · cases hoff.symm.trans hon

/-- Going on with `send_cer`. -/
theorem runCer_inv (h : s.Base) {task : Proc (OrPanic (Except String Unit))} {written : Bool}
    (hfollows : Follows cerProtocol CerSent written task) (hsent : written = true → s.CerOut)
    (hrun : s.runCer task = some s') : s'.Inv := by
  match task with
  | .ret none =>
    obtain rfl := Option.some.inj hrun
    exact ⟨⟨h.sound, h.number, h.flag, h.session, h.senders⟩, trivial⟩
  | .ret (some result) =>
    obtain ⟨client, hstep, rfl⟩ := Option.map_eq_some_iff.mp hrun
    refine ⟨h.setClient .client hstep fun _ _ hevent => ?_, fun hphase => ?_⟩
    · obtain ⟨_, _, _, hevent⟩ := hevent
      cases hevent
    · obtain rfl := TcpClient.Event.sendCer.inj
        (TcpClient.eq_sendCer_of_receivingCea hstep hphase)
      exact hsent (hfollows rfl)
  | .call c next =>
    obtain rfl := Option.some.inj hrun
    exact ⟨⟨h.sound, h.number, h.flag, h.session, h.senders⟩, written, hfollows, hsent⟩

/-- Going on with `close`. -/
theorem runClose_inv (h : s.Base) {task : Proc (Except String Unit)}
    (huses : task.Uses WritesDpr) (hout : s.CerOut) : (s.runClose task).Inv := by
  match task with
  | .ret result => exact ⟨⟨h.sound, h.number, h.flag, h.session, h.senders⟩, fun _ => hout⟩
  | .call c next => exact ⟨⟨h.sound, h.number, h.flag, h.session, h.senders⟩, huses, hout⟩

/-- An event of the client itself. -/
theorem follow_inv (h : s.Inv) (hown : s.own = .client) (hstep : s.client.step e = some client)
    (he : ∀ result, e ≠ .sendCer result) (hfollow : s.follow client = some s') : s'.Inv := by
  have hout : s.client.phase = .receivingCea → s.CerOut := by
    have hknows := h.own
    rw [hown] at hknows
    exact hknows
  have hbase : ∀ stage, (s.client.phase = .receivingCea → client.phase ≠ .reading .new) →
      ({ s with client, own := stage } : ClientStreams τ).Base := fun stage hnot =>
    h.setClient stage hstep fun hphase hreading _ => absurd hreading (hnot hphase)
  have hphase' : client.phase ≠ .receivingCea := fun hphase =>
    he _ (TcpClient.eq_sendCer_of_receivingCea hstep hphase)
  rw [follow] at hfollow
  split at hfollow
  · rename_i hphase hreading
    obtain ⟨stream, earlier, stream', hstreams, haccept, rfl⟩ := onStream_eq_some hfollow
    obtain rfl := Option.some.inj haccept
    -- the CEA is accepted first, then the client goes on
    have hstreams' : s.streams = stream :: earlier := hstreams
    have hsound := h.sound stream (by rw [hstreams']; exact List.mem_cons_self)
    have haccepted := h.setStream hstreams
      (hsound.accept ((cerOut_iff hstreams).mp (hout hphase))) rfl (fun _ => rfl) id
    exact ⟨haccepted.setClient .client hstep fun _ _ _ => (accepted_iff rfl).mpr rfl,
      fun hreceiving => absurd hreceiving hphase'⟩
  · rename_i hphase hconnecting
    obtain rfl := Option.some.inj hfollow
    have hgone := hbase s.own fun _ hreading => by cases hconnecting.symm.trans hreading
    exact runClose_inv hgone (close_writesDpr _) (hout hphase)
  · rename_i hsending
    obtain rfl := Option.some.inj hfollow
    have hgone := hbase .opening fun _ hreading => by cases hsending.symm.trans hreading
    exact ⟨hgone, hsending⟩
  · rename_i hnot _
    obtain rfl := Option.some.inj hfollow
    exact ⟨hbase .client fun hphase hreading => hnot _ hphase hreading,
      fun hreceiving => absurd hreceiving hphase'⟩

theorem written_of_cerProtocol {written written' : Bool} {c : Call}
    {answer : (c : Call) → c.Reply} (h : cerProtocol written c (answer c) written')
    (hwritten : written' = true) :
    written = true ∨ ∃ command, c = .write command ∧ (answer (.write command)).toBool = true := by
  cases c with
  | write command => exact .inr ⟨command, rfl, h.2 ▸ hwritten⟩
  | _ => exact .inl (h ▸ hwritten)

variable {answer : (c : Call) → c.Reply}

/-- A reply to the own task: where it says that a CER has been written, the CER is out. -/
theorem resume_inv (h : s.Inv) (hout : ∀ command, s.ownCall = some (.write command) →
      (answer (.write command)).toBool = true → s.CerOut)
    (hresume : s.resume answer = some s') : s'.Inv := by
  have hknows := h.own
  rw [resume] at hresume
  split at hresume
  · rename_i c next hown
    rw [hown] at hknows
    obtain ⟨written, hfollows, hsent⟩ := hknows
    obtain ⟨written', hprotocol, hnext⟩ := hfollows (s.client.replyTo answer c)
    refine runCer_inv h.toBase hnext (fun hwritten => ?_) hresume
    rcases written_of_cerProtocol hprotocol hwritten with hbefore | ⟨command, rfl, hok⟩
    · exact hsent hbefore
    · exact hout command (by rw [ownCall, hown]) hok
  · rename_i c next hown
    rw [hown] at hknows
    obtain rfl := Option.some.inj hresume
    exact runClose_inv h.toBase (hknows.1.2 _) hknows.2
  · rename_i hown
    obtain ⟨client, hstep, hfollow⟩ := Option.bind_eq_some_iff.mp hresume
    exact follow_inv h hown hstep (fun _ => nofun) hfollow
  · cases hresume

theorem ownCall_onStream {f : PeerStream τ → Option (PeerStream τ)} (h : s.onStream f = some s') :
    s'.ownCall = s.ownCall := by
  obtain ⟨stream, earlier, stream', hstreams, -, rfl⟩ := onStream_eq_some h
  rfl

theorem reply_inv (h : s.Inv) (hreply : s.reply answer = some s') : s'.Inv := by
  rw [reply] at hreply
  split at hreply
  · rename_i command hcall
    split at hreply
    · rename_i w hwriting
      split at hreply
      · cases hreply
      · rename_i hguard
        obtain ⟨t, hunlock, hresume⟩ := Option.bind_eq_some_iff.mp hreply
        have hcalls := ownCall_onStream hunlock
        obtain ⟨stream, earlier, stream', hstreams, hunlocked, rfl⟩ := onStream_eq_some hunlock
        obtain rfl := Option.some.inj hunlocked
        have hsound := h.sound stream (by rw [hstreams]; exact List.mem_cons_self)
        have hcurrent : stream.current = some w := by
          rw [writing, hstreams] at hwriting
          exact hwriting
        refine resume_inv (h.setStream hstreams hsound.unlock rfl id PeerStream.CerWritten.unlock)
          (fun command' hcall' hok => (cerOut_iff rfl).mpr ?_) hresume
        obtain rfl : command' = command := by
          rw [hcalls, hcall] at hcall'
          exact (Call.write.inj (Option.some.inj hcall')).symm
        obtain ⟨hown, hwhole⟩ := not_or.mp hguard
        exact hsound.cerWritten_unlock hcurrent (by simpa using hown)
          (not_not.mp fun hcut => hwhole ⟨hok, hcut⟩)
    · cases hreply
  · rename_i hcall
    split at hreply
    · exact resume_inv h (fun command hwrite => by cases hcall.symm.trans hwrite) hreply
    · cases hreply
  · rename_i c hnot _ hcall
    refine resume_inv h (fun command hwrite => ?_) hreply
    rw [hcall] at hwrite
    exact absurd (Option.some.inj hwrite) (hnot command)
  · cases hreply

/-- A task gets the lock. -/
theorem lock_inv (h : s.Inv) {task : Option τ} {command : Command} {opened : Nat}
    (hadmissible : ∀ stream ∈ s.streams.head?,
      (⟨task, command, opened, stream.accepted, 0⟩ : StreamWrite τ).Admissible stream.number
        stream.writes)
    (hlock : s.onStream (fun stream => stream.lock task command opened) = some s') : s'.Inv := by
  obtain ⟨stream, earlier, stream', hstreams, hlocked, rfl⟩ := onStream_eq_some hlock
  have hsound := h.sound stream (by rw [hstreams]; exact List.mem_cons_self)
  have hstill := hsound.lock hlocked (hadmissible stream (by rw [hstreams]; rfl))
  obtain ⟨-, rfl⟩ := PeerStream.lock_eq_some hlocked
  exact h.setStream hstreams hstill rfl id id

/-- What the own task waits to write is admissible. -/
theorem own_admissible (h : s.Inv) {command : Command} (hcall : s.ownCall = some (.write command))
    {stream : PeerStream τ} (hstream : stream ∈ s.streams.head?) :
    (⟨none, command, s.streams.length, stream.accepted, 0⟩ : StreamWrite τ).Admissible
      stream.number stream.writes := by
  obtain ⟨earlier, hstreams⟩ : ∃ earlier, s.streams = stream :: earlier :=
    List.head?_eq_some_iff.mp hstream
  have hknows := h.own
  rw [ownCall] at hcall
  split at hcall
  · rename_i c next hown
    obtain rfl := Option.some.inj hcall
    rw [hown] at hknows
    obtain ⟨written, hfollows, -⟩ := hknows
    obtain ⟨_, hprotocol, -⟩ := hfollows (.ok ())
    exact .inr (.inl hprotocol.1)
  · rename_i c next hown
    obtain rfl := Option.some.inj hcall
    rw [hown] at hknows
    exact .inr (.inr ⟨(cerOut_iff hstreams).mp hknows.2, .inr ⟨rfl, hknows.1.1⟩⟩)
  · split at hcall
    · rename_i hphase
      have hin : s.client.phase.InSession := by rw [hphase]; exact trivial
      have haccepted := (accepted_iff hstreams).mp (h.session (h.flag.on hin))
      have hsound := h.sound stream (by rw [hstreams]; exact List.mem_cons_self)
      exact .inr (.inr ⟨hsound.accepted haccepted, .inl haccepted⟩)
    · cases hcall
  · cases hcall

/-- So is what a sender waits to write. -/
theorem sender_admissible (h : s.Inv) {task : τ} {command : Command} {opened : Nat}
    (hsender : s.senders task = some (command, opened)) {stream : PeerStream τ}
    (hstream : stream ∈ s.streams.head?) :
    (⟨some task, command, opened, stream.accepted, 0⟩ : StreamWrite τ).Admissible
      stream.number stream.writes := by
  obtain ⟨earlier, hstreams⟩ : ∃ earlier, s.streams = stream :: earlier :=
    List.head?_eq_some_iff.mp hstream
  obtain ⟨-, hlt | hcode | haccepted⟩ := h.senders hsender
  · exact .inl ⟨rfl, by have := h.number stream hstream; show opened ≤ stream.number; omega⟩
  · exact .inr (.inl hcode)
  · rw [accepted_iff hstreams] at haccepted
    have hsound := h.sound stream (by rw [hstreams]; exact List.mem_cons_self)
    exact .inr (.inr ⟨hsound.accepted haccepted, .inl haccepted⟩)

/-- The writer is replaced. -/
theorem replace_inv (h : s.Inv) (hown : s.own = .opening)
    (hrun : { s with streams := .new s.streams.length :: s.streams }.runCer
      (TcpClientConnection.sendCer s.config) = some s') : s'.Inv := by
  have hoff : s.client.connected = false := by
    have hknows := h.own
    rw [hown] at hknows
    have hphase : s.client.phase = .sendingCer := hknows
    exact h.flag.off (by rw [hphase]; exact trivial)
  have hbase :
      ({ s with streams := .new s.streams.length :: s.streams } : ClientStreams τ).Base := by
    refine ⟨?_, ?_, h.flag, fun hon => ?_, ?_⟩
    · intro stream hstream
      rcases List.mem_cons.mp hstream with rfl | hstream
      · exact PeerStream.sound_new _
      · exact h.sound stream hstream
    · intro stream hstream
      obtain rfl := Option.some.inj hstream
      rfl
    · cases hoff.symm.trans hon
    · intro task command opened hsender
      have hle := (h.senders hsender).1
      exact ⟨Nat.le_succ_of_le hle, .inl (Nat.lt_succ_of_le hle)⟩
  exact runCer_inv hbase (sendCer_follows s.config)
    (fun hsent => absurd hsent Bool.false_ne_true) hrun

theorem inv_new (config : DiameterClient) (ctx : CommandProcessorContext)
    (settings : SendSettings) (tls : Bool) :
    (new config ctx settings tls : ClientStreams τ).Inv :=
  ⟨⟨nofun, nofun, ⟨fun _ => rfl, nofun⟩, nofun, nofun⟩, nofun⟩

variable [DecidableEq τ]

/-- A sender comes or goes. -/
theorem Inv.setSender (h : s.Inv) (task : τ) {sender : Option (Command × Nat)}
    (hsender : ∀ command opened, sender = some (command, opened) →
      opened ≤ s.streams.length ∧ s.Admits command opened) :
    ({ s with senders := Function.update s.senders task sender } : ClientStreams τ).Inv := by
  refine ⟨⟨h.sound, h.number, h.flag, h.session, ?_⟩, h.own.mono rfl id⟩
  intro other command opened hother
  change Function.update s.senders task sender other = _ at hother
  by_cases hsame : other = task
  · rw [hsame, Function.update_self] at hother
    exact hsender command opened hother
  · rw [Function.update_of_ne hsame] at hother
    exact h.senders hother

theorem step_inv {l : Label τ} (h : s.Inv) (hstep : s.step l = some s') : s'.Inv := by
  unfold step at hstep
  split at hstep
  case h_1 answer => exact reply_inv h hstep
  case h_2 => cases hstep
  case h_3 =>
    split at hstep
    · rename_i hown
      split at hstep
      · cases hstep
      · obtain ⟨client, hclient, hfollow⟩ := Option.bind_eq_some_iff.mp hstep
        exact follow_inv h hown hclient (fun _ he => by cases he) hfollow
    · split at hstep
      · cases hstep
      · obtain rfl := Option.some.inj hstep
        exact ⟨⟨h.sound, h.number, h.flag, h.session, h.senders⟩, trivial⟩
    · cases hstep
  case h_4 e hreply hcer _ =>
    split at hstep
    · rename_i hown
      obtain ⟨client, hclient, hfollow⟩ := Option.bind_eq_some_iff.mp hstep
      exact follow_inv h hown hclient (fun result he => hcer result he) hfollow
    · cases hstep
  case h_5 =>
    split at hstep
    · exact replace_inv h ‹_› hstep
    · cases hstep
  case h_6 task command =>
    split at hstep
    · rename_i hadmitted
      obtain rfl := Option.some.inj hstep
      refine h.setSender task fun command' opened heq => ?_
      obtain ⟨rfl, rfl⟩ := Prod.mk.inj (Option.some.inj heq)
      exact ⟨Nat.le_refl _, .inr (hadmitted.2.imp_right h.session)⟩
    · cases hstep
  case h_7 =>
    split at hstep
    · rename_i command hcall
      exact lock_inv h (fun stream hstream => own_admissible h hcall hstream) hstep
    · cases hstep
  case h_8 task =>
    split at hstep
    · rename_i command opened hsender
      exact lock_inv h (fun stream hstream => sender_admissible h hsender hstream) hstep
    · cases hstep
  case h_9 n =>
    obtain ⟨stream, earlier, stream', hstreams, hpush, rfl⟩ := onStream_eq_some hstep
    have hsound := h.sound stream (by rw [hstreams]; exact List.mem_cons_self)
    have hstill := hsound.push hpush
    obtain ⟨w, -, rfl⟩ := PeerStream.push_eq_some hpush
    exact h.setStream hstreams hstill rfl id id
  case h_10 task =>
    have hleft :
        ({ s with senders := Function.update s.senders task none } : ClientStreams τ).Inv :=
      h.setSender task fun _ _ hnone => by cases hnone
    dsimp only at hstep
    split at hstep
    · obtain ⟨stream, earlier, stream', hstreams, hunlock, rfl⟩ := onStream_eq_some hstep
      obtain rfl := Option.some.inj hunlock
      have hsound := hleft.sound stream (by rw [hstreams]; exact List.mem_cons_self)
      exact hleft.setStream hstreams hsound.unlock rfl id PeerStream.CerWritten.unlock
    · obtain rfl := Option.some.inj hstep
      exact hleft

/-- **Every stream carries the commands in the order of their locks, each as far as it was
written, and the CER comes first**: in every run, whatever the tasks, the peer and the socket do,
a write that is not of a CER begins behind the client's own CER, in a session or to give the
stream up, unless its task passed the check of the flag while an earlier stream was up. -/
theorem streams_of_run (config : DiameterClient) (ctx : CommandProcessorContext)
    (settings : SendSettings) (tls : Bool) {labels : List (Label τ)}
    (hrun : run step (new config ctx settings tls) labels = some s) {stream : PeerStream τ}
    (hstream : stream ∈ s.streams) :
    stream.bytes = stream.begun.flatMap StreamWrite.bytes ∧
      ∀ before w after, stream.begun = before ++ w :: after →
        w.Admissible stream.number before := by
  have hinv : s.Inv := run_invariant step_inv (inv_new config ctx settings tls) hrun
  have hsound := hinv.sound stream hstream
  exact ⟨hsound.bytes, hsound.orderly⟩

end

def sampleContext : CommandProcessorContext := ⟨"10.0.0.2:3868", "a", "home.org", "b", "peer.org"⟩

/-- A connection of the stack `Handshake.client`. -/
def sample : ClientStreams Unit :=
  new { Handshake.client with logsInfo := false } sampleContext ⟨60000, 10000, []⟩ false

def sampleReplies : (c : Call) → c.Reply
  | .write _ => .ok ()
  | _ => default

/-- A request is let write in one session, and gets the lock when the next connection has been
made; its `timeout` drops it behind five bytes. -/
def overtaken : List (Label Unit) :=
  [.own (.connect (.ok ())), .replace, .own (.reply sampleReplies), .own (.reply sampleReplies),
    .own (.reply sampleReplies), .lock none, .write 1024, .own (.reply sampleReplies),
    .own (.receiveCea false "early eof" TcpClient.sampleCea.encode), .send () Command.sampleRequest,
    .own (.read (.ok [])), .own (.connect (.ok ())), .replace, .lock (some ()), .write 5, .leave ()]

theorem streams_of_run_overtaken : ∃ stream : PeerStream Unit,
    stream.begun.map (fun w => (w.task, w.command.code, w.written)) =
        [(some (), Command.sampleRequest.code, 5)] ∧
      stream.bytes = stream.begun.flatMap StreamWrite.bytes ∧
      ∀ before w after, stream.begun = before ++ w :: after →
        w.Admissible stream.number before := by
  have hruns : (run step sample overtaken).map (fun s => s.streams.head?.map fun stream =>
      stream.begun.map fun w => (w.task, w.command.code, w.written)) =
        some (some [(some (), Command.sampleRequest.code, 5)]) := by
    decide +kernel
  obtain ⟨s, hrun, hstreams⟩ := Option.map_eq_some_iff.mp hruns
  obtain ⟨stream, hstream, hbegun⟩ := Option.map_eq_some_iff.mp hstreams
  exact ⟨stream, hbegun, streams_of_run _ _ _ _ hrun (List.mem_of_mem_head? hstream)⟩

end ClientStreams

end RestDiameterBridge
