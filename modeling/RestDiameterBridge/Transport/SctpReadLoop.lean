import Mathlib.Data.List.Induction
import RestDiameterBridge.CommandBuffer
import RestDiameterBridge.Lib.OrPanic
import RestDiameterBridge.Message

/-!
# RestDiameterBridge.Transport.SctpReadLoop

The read loops over plain SCTP (`SctpStream::read` and the two `handle_connection` in
`src/transport/sctp_transport.rs`).

SCTP delivers whole messages. `read` copies a message into the 4096-byte buffer of its
caller and drops what does not fit; the loops then treat what they got as a piece of a
byte stream. A message is also lost when it comes to a loop that has ended, and the client's
loop ends on the first command it cannot process. `hands_iff` says for which messages the
loops hand on exactly the commands that were sent to them.
-/

namespace RestDiameterBridge

/-- A message that is the encoding of a command. -/
structure SctpMessage where
  command : Command
  wellFormed : command.WellFormed

/-- The bytes of the message. -/
def SctpMessage.payload (m : SctpMessage) : List UInt8 := m.command.encode

/-- The bytes `SctpStream::read` leaves in a buffer of the given size. -/
def SctpStream.read (bufLen : Nat) (payload : List UInt8) : List UInt8 :=
  payload.take (min payload.length bufLen)

/-- What happens to a read loop. -/
inductive SctpEvent
  /-- The timer ticks; `sent` is what becomes of the watchdog request. -/
  | tick (sent : OrPanic (Except String Unit))
  /-- A message arrives. `processed` is what `process_command` comes to for the commands
  handed to it then, in their order. -/
  | message (message : SctpMessage) (processed : Nat → OrPanic (Except String Unit))
  /-- The read fails, on an error of the socket or on a notification. -/
  | failure (error : String)

/-- A read loop, with the messages that have arrived and the commands handed to
`process_command` so far. -/
structure SctpReadLoop where
  commandBuffer : CommandBuffer
  arrived : List SctpMessage
  handed : List Command
  /-- It has returned, or its task has panicked. -/
  ended : Bool

/-- The ends of an association. -/
inductive SctpEnd
  | client
  | server
  deriving Repr, DecidableEq

namespace SctpReadLoop

/-- A loop at its start. -/
def new : SctpReadLoop :=
  { commandBuffer := .new, arrived := [], handed := [], ended := false }

/-- The message is read, appended and the complete commands are taken off, if the loop is
still there to do so. `hand` says which of them are handed on, and whether the loop ends. -/
def receive (s : SctpReadLoop) (message : SctpMessage)
    (hand : List Command → List Command × Bool) : SctpReadLoop :=
  let s := { s with arrived := s.arrived ++ [message] }
  if s.ended then s
  else
    let chunk := SctpStream.read 4096 message.payload
    -- a read of no bytes is the end of the association
    if chunk.length = 0 then { s with ended := true }
    else
      let (commands, commandBuffer) := (s.commandBuffer.append chunk).readCommands
      let (handed, ended) := hand commands
      { s with commandBuffer, handed := s.handed ++ handed, ended }

end SctpReadLoop

/-- The client's loop over the commands of a read: each is written into the log first, which
panics where `logs` says so, and a command that cannot be processed ends the loop. -/
def SctpClientConnection.hand (logs : Command → Bool)
    (processed : Nat → OrPanic (Except String Unit)) : List Command → List Command × Bool
  | [] => ([], false)
  | command :: commands =>
      if logs command then
        match processed 0 with
        | some (.ok ()) =>
            let rest := hand logs (fun i => processed (i + 1)) commands
            (command :: rest.1, rest.2)
        | some (.error _) | none => ([command], true)
      else ([], true)

/-- One turn of the client's loop: it returns when it cannot send its watchdog request, or
`process_command` fails. -/
def SctpClientConnection.handleConnection (logs : Command → Bool) (s : SctpReadLoop) :
    SctpEvent → SctpReadLoop
  | .tick (some (.ok ())) => s
  | .tick _ | .failure _ => { s with ended := true }
  | .message message processed => s.receive message (hand logs processed)

/-- The server's loop over the commands of a read goes on if one cannot be processed. -/
def SctpServerConnection.hand (processed : Nat → OrPanic (Except String Unit)) :
    List Command → List Command × Bool
  | [] => ([], false)
  | command :: commands =>
      match processed 0 with
      | some _ =>
          let rest := hand (fun i => processed (i + 1)) commands
          (command :: rest.1, rest.2)
      | none => ([command], true)

/-- One turn of the server's loop, which has no timer. -/
def SctpServerConnection.handleConnection (s : SctpReadLoop) : SctpEvent → SctpReadLoop
  | .tick _ => s
  | .failure _ => { s with ended := true }
  | .message message processed => s.receive message (hand processed)

/-- What an end does with the commands of a read. -/
def SctpEnd.hand (logs : Command → Bool) (processed : Nat → OrPanic (Except String Unit)) :
    SctpEnd → List Command → List Command × Bool
  | client => SctpClientConnection.hand logs processed
  | server => SctpServerConnection.hand processed

/-- The read loop of an end. -/
def SctpEnd.handleConnection (logs : Command → Bool) :
    SctpEnd → SctpReadLoop → SctpEvent → SctpReadLoop
  | client => SctpClientConnection.handleConnection logs
  | server => SctpServerConnection.handleConnection

/-- What an end has made of the events. -/
def SctpEnd.run (side : SctpEnd) (logs : Command → Bool) (events : List SctpEvent) : SctpReadLoop :=
  events.foldl (side.handleConnection logs) .new

/-! ### What is lost -/

/-- The message fits the buffer of the loops, and the client can write its command into the
log. -/
def SctpEnd.Takes (side : SctpEnd) (logs : Command → Bool) : SctpEvent → Prop
  | .message message _ =>
      message.payload.length ≤ 4096 ∧ (side = client → logs message.command.wire = true)
  | .tick _ | .failure _ => True

/-- The event ends the loop: a failed read; a panic while the command of a message is
processed; and for the client also an error of that, or a watchdog request that is not
sent. -/
def SctpEnd.EndsOn (side : SctpEnd) : SctpEvent → Prop
  | .tick sent => side = client ∧ sent ≠ some (.ok ())
  | .failure _ => True
  | .message _ processed =>
      match side with
      | client => processed 0 ≠ some (.ok ())
      | server => processed 0 = none

/-- All messages are taken, and none comes after an event that ends the loop. -/
structure SctpEnd.HearsAll (side : SctpEnd) (logs : Command → Bool) (events : List SctpEvent) :
    Prop where
  takes : ∀ event ∈ events, side.Takes logs event
  inTime : events.Pairwise fun event later =>
    side.EndsOn event → ∀ message processed, later ≠ .message message processed

namespace SctpReadLoop

/-- Exactly the commands of the messages that have arrived have been handed on, in order. -/
def Hands (s : SctpReadLoop) : Prop :=
  s.handed.map Except.ok = s.arrived.map fun m => Command.decode m.payload

/-- All that has arrived has been handed on, and nothing is left over. -/
structure Clean (s : SctpReadLoop) : Prop where
  hands : s.Hands
  buffer : s.commandBuffer = .new

section
variable {s : SctpReadLoop} {message : SctpMessage} {hand : List Command → List Command × Bool}

theorem length_payload_command {m : Message} (hm : m.length < 2 ^ 24) :
    (SctpMessage.mk m.command (Message.wellFormed_command hm)).payload.length = m.length := by
  rw [SctpMessage.payload, Message.encode_command hm, Message.bytes, Message.length]
  simp only [List.length_append, Bytes.length_beBytes, Bytes.length_toBeBytes,
    List.length_singleton]

theorem isFrame_payload (m : SctpMessage) :
    CommandBuffer.commandFraming.IsFrame m.payload m.command.wire :=
  CommandBuffer.isFrame_encode m.wellFormed

theorem length_payload (m : SctpMessage) : 20 ≤ m.payload.length := (isFrame_payload m).headerLen_le

theorem length_read_pos (m : SctpMessage) : (SctpStream.read 4096 m.payload).length ≠ 0 := by
  have := length_payload m
  rw [SctpStream.read, List.length_take]
  omega

/-- A message that fits is taken off as its command. -/
theorem readCommands_fits (hfits : message.payload.length ≤ 4096) :
    (CommandBuffer.new.append (SctpStream.read 4096 message.payload)).readCommands =
      ([message.command.wire], .new) := by
  have hread : SctpStream.read 4096 message.payload = message.payload := by
    rw [SctpStream.read, List.take_of_length_le (by omega)]
  have hdrain := Framing.drain_frame_append (isFrame_payload message) []
  rw [List.append_nil, Framing.drain_of_not_complete Framing.not_complete_nil] at hdrain
  rw [hread, CommandBuffer.readCommands_eq]
  show (_, CommandBuffer.mk _) = _
  simp only [CommandBuffer.append, CommandBuffer.new, List.nil_append, hdrain]

/-- Of one that does not, the front waits for the rest. -/
theorem readCommands_not_fits (hfits : 4096 < message.payload.length) :
    (CommandBuffer.new.append (SctpStream.read 4096 message.payload)).readCommands.1 = [] := by
  have hread : SctpStream.read 4096 message.payload = message.payload.take 4096 := by
    rw [SctpStream.read, Nat.min_eq_right (by omega)]
  have hnc : ¬CommandBuffer.commandFraming.Complete (message.payload.take 4096) := by
    have hframe := isFrame_payload message
    refine hframe.not_complete_of_prefix
      (List.take_append_drop 4096 message.payload).symm ?_
    rw [List.length_take]
    omega
  rw [hread, CommandBuffer.readCommands_eq]
  show (CommandBuffer.commandFraming.drain ([] ++ _)).1 = []
  rw [List.nil_append, Framing.drain_of_not_complete hnc]

end

section
variable {s : SctpReadLoop} {side : SctpEnd} {logs : Command → Bool} {message : SctpMessage}
  {processed : Nat → OrPanic (Except String Unit)} {event : SctpEvent}

theorem handleConnection_message :
    side.handleConnection logs s (.message message processed) =
      s.receive message (side.hand logs processed) := by
  cases side <;> rfl

theorem hand_nil : side.hand logs processed [] = ([], false) := by cases side <;> rfl

variable (message processed) in
/-- A command that can be logged is handed on, and the loop ends as its processing says. -/
theorem hand_single {command : Command} (hlogs : side = .client → logs command = true) :
    (side.hand logs processed [command]).1 = [command] ∧
      ((side.hand logs processed [command]).2 = true ↔
        side.EndsOn (.message message processed)) := by
  cases side with
  | client =>
    simp only [SctpEnd.hand, SctpClientConnection.hand, hlogs rfl, if_true, SctpEnd.EndsOn]
    rcases processed 0 with _ | ⟨_ | ⟨⟩⟩ <;> simp
  | server =>
    simp only [SctpEnd.hand, SctpServerConnection.hand, SctpEnd.EndsOn]
    cases processed 0 <;> simp

/-- One that the client cannot log is not. -/
theorem hand_unlogged {command : Command} (hlogs : logs command = false) :
    SctpEnd.client.hand logs processed [command] = ([], true) := by
  simp [SctpEnd.hand, SctpClientConnection.hand, hlogs]

/-- A message to a clean loop that is still there. -/
theorem receive_clean {hand : List Command → List Command × Bool} (h : s.Clean)
    (hopen : s.ended = false) :
    s.receive message hand =
      { commandBuffer :=
          (CommandBuffer.new.append (SctpStream.read 4096 message.payload)).readCommands.2
        arrived := s.arrived ++ [message]
        handed := s.handed ++
          (hand (CommandBuffer.new.append (SctpStream.read 4096 message.payload)).readCommands.1).1
        ended :=
          (hand (CommandBuffer.new.append (SctpStream.read 4096 message.payload)).readCommands.1).2 } := by
  unfold receive
  dsimp only
  rw [if_neg (by simp [hopen]), if_neg (length_read_pos message), h.buffer]

/-- A message of which nothing is handed on is lost. -/
theorem not_hands_of_handed {t : SctpReadLoop} (h : s.Hands) (hhanded : t.handed = s.handed)
    (harrived : t.arrived = s.arrived ++ [message]) : ¬t.Hands := by
  intro hhands
  have hlength := congrArg List.length hhands
  have hbefore := congrArg List.length h
  simp only [hhanded, harrived, List.length_map, List.length_append, List.length_singleton]
    at hlength hbefore
  omega

/-- The loop takes the event, and has not ended if it is a message. -/
def Hears (side : SctpEnd) (logs : Command → Bool) (s : SctpReadLoop) (event : SctpEvent) : Prop :=
  side.Takes logs event ∧
    (s.ended = true → ∀ message processed, event ≠ .message message processed)

variable (side logs event) in
/-- One event: what is heard leaves the loop clean, anything else is lost. -/
theorem Clean.step (h : s.Clean) :
    (Hears side logs s event ∧ (side.handleConnection logs s event).Clean ∧
      ((side.handleConnection logs s event).ended = true ↔ s.ended = true ∨ side.EndsOn event)) ∨
    (¬Hears side logs s event ∧ ¬(side.handleConnection logs s event).Hands) := by
  cases event with
  | tick sent =>
    refine .inl ⟨⟨trivial, fun _ _ _ heq => by cases heq⟩, ?_⟩
    cases side with
    | client =>
      rcases sent with _ | ⟨_ | ⟨⟩⟩ <;>
        exact ⟨⟨h.hands, h.buffer⟩, by
          simp [SctpEnd.handleConnection, SctpClientConnection.handleConnection, SctpEnd.EndsOn]⟩
    | server => exact ⟨h, by simp [SctpEnd.handleConnection, SctpServerConnection.handleConnection,
        SctpEnd.EndsOn]⟩
  | failure error =>
    refine .inl ⟨⟨trivial, fun _ _ _ heq => by cases heq⟩, ?_⟩
    cases side <;> exact ⟨⟨h.hands, h.buffer⟩, iff_of_true rfl (.inr trivial)⟩
  | message message processed =>
    rw [handleConnection_message]
    by_cases hended : s.ended = true
    · refine .inr ⟨fun hhears => hhears.2 hended _ _ rfl, ?_⟩
      have hlost : s.receive message (side.hand logs processed) =
          { s with arrived := s.arrived ++ [message] } := if_pos hended
      rw [hlost]
      exact not_hands_of_handed h.hands rfl rfl
    · have hopen : s.ended = false := by simpa using hended
      rw [receive_clean h hopen]
      by_cases hfits : message.payload.length ≤ 4096
      · rw [readCommands_fits hfits]
        by_cases hlogs : side = .client → logs message.command.wire = true
        · obtain ⟨hhanded, hends⟩ :=
            hand_single message processed hlogs
          refine .inl ⟨⟨⟨hfits, hlogs⟩, fun hend => absurd hend hended⟩, ⟨?_, rfl⟩, ?_⟩
          · simp only [Hands, hhanded, List.map_append, List.map_singleton]
            rw [show s.handed.map Except.ok = _ from h.hands]
            congr 2
            exact (Command.decode_encode message.wellFormed).symm
          · rw [hends]
            exact ⟨.inr, fun hor => hor.resolve_left hended⟩
        · refine .inr ⟨fun hhears => hlogs hhears.1.2, ?_⟩
          obtain ⟨rfl, hlog⟩ := Classical.not_imp.mp hlogs
          rw [hand_unlogged (by simpa using hlog)]
          exact not_hands_of_handed h.hands (List.append_nil _) rfl
      · refine .inr ⟨fun hhears => hfits hhears.1.1, ?_⟩
        rw [readCommands_not_fits (by omega), hand_nil]
        exact not_hands_of_handed h.hands (List.append_nil _) rfl

end

theorem clean_new : new.Clean := ⟨rfl, rfl⟩

section
variable {side : SctpEnd} {logs : Command → Bool} {events : List SctpEvent} {event : SctpEvent}

theorem run_snoc :
    side.run logs (events ++ [event]) = side.handleConnection logs (side.run logs events) event := by
  simp [SctpEnd.run]

theorem hearsAll_snoc :
    side.HearsAll logs (events ++ [event]) ↔
      side.HearsAll logs events ∧ side.Takes logs event ∧ ∀ before ∈ events, side.EndsOn before →
        ∀ message processed, event ≠ .message message processed := by
  constructor
  · intro h
    obtain ⟨hbefore, -, hcross⟩ := List.pairwise_append.mp h.inTime
    exact ⟨⟨fun e he => h.takes e (List.mem_append_left _ he), hbefore⟩,
      h.takes event (List.mem_append_right _ (List.mem_singleton.mpr rfl)),
      fun before hb => hcross before hb event (List.mem_singleton.mpr rfl)⟩
  · rintro ⟨h, htakes, hlast⟩
    refine ⟨fun e he => ?_, List.pairwise_append.mpr ⟨h.inTime, List.pairwise_singleton _ _, ?_⟩⟩
    · rcases List.mem_append.mp he with he | he
      · exact h.takes e he
      · rw [List.mem_singleton.mp he]
        exact htakes
    · intro before hb later hlater
      rw [List.mem_singleton.mp hlater]
      exact hlast before hb

/-- Where all is heard the loop is clean, and has ended if an event has ended it. -/
theorem clean_of_hearsAll (h : side.HearsAll logs events) :
    (side.run logs events).Clean ∧
      ((side.run logs events).ended = true ↔ ∃ event ∈ events, side.EndsOn event) := by
  induction events using List.reverseRecOn with
  | nil => exact ⟨clean_new, by simp [SctpEnd.run, new]⟩
  | append_singleton events event ih =>
    obtain ⟨hbefore, htakes, hlast⟩ := hearsAll_snoc.mp h
    obtain ⟨hclean, hended⟩ := ih hbefore
    have hhears : Hears side logs (side.run logs events) event := by
      refine ⟨htakes, fun hend => ?_⟩
      obtain ⟨before, hb, hends⟩ := hended.mp hend
      exact hlast before hb hends
    rw [run_snoc]
    rcases hclean.step side logs event with
      ⟨-, hnext, hend⟩ | ⟨hnot, -⟩
    · refine ⟨hnext, ?_⟩
      rw [hend, hended]
      simp [or_and_right, exists_or]
    · exact absurd hhears hnot

end

/-- **Whole messages.** At either end, however long the run, exactly the commands of the
messages that have arrived have been handed to `process_command`, in order, if and only if no
message is longer than 4096 bytes or holds a command that the client panics on logging, and
none comes after an event that ends the loop. -/
theorem hands_iff (side : SctpEnd) (logs : Command → Bool) (events : List SctpEvent) :
    (∀ past, past <+: events → (side.run logs past).Hands) ↔ side.HearsAll logs events := by
  induction events using List.reverseRecOn with
  | nil =>
    refine iff_of_true (fun past hpast => ?_) ⟨by simp, .nil⟩
    rw [List.prefix_nil.mp hpast]
    exact clean_new.hands
  | append_singleton events event ih =>
    have hsplit : (∀ past, past <+: events ++ [event] → (side.run logs past).Hands) ↔
        (side.run logs (events ++ [event])).Hands ∧
          ∀ past, past <+: events → (side.run logs past).Hands := by
      simp only [List.prefix_concat_iff, forall_eq_or_imp]
    rw [hsplit, ih, hearsAll_snoc, and_comm]
    refine and_congr_right fun hbefore => ?_
    obtain ⟨hclean, hended⟩ := clean_of_hearsAll hbefore
    rw [run_snoc]
    have hhears : Hears side logs (side.run logs events) event ↔ side.Takes logs event ∧
        ∀ before ∈ events, side.EndsOn before →
          ∀ message processed, event ≠ .message message processed := by
      refine and_congr_right fun _ => ?_
      rw [hended]
      exact forall_exists_index.trans (forall_congr' fun _ => and_imp)
    rw [← hhears]
    rcases hclean.step side logs event with
      ⟨hyes, hnext, -⟩ | ⟨hno, hlost⟩
    · exact iff_of_true hnext.hands hyes
    · exact iff_of_false hlost hno

theorem vendor_longAvp : ((0x40 : UInt8) &&& 0x80 != 0) = (none : Option UInt32).isSome := rfl

/-- An AVP with 4080 bytes of data. -/
def longAvp : WireAvp where
  code := 1
  flags := 0x40
  vendorId := none
  data := List.replicate 4080 65
  vendor := vendor_longAvp

/-- A watchdog request with that AVP. -/
def longMessage : Message :=
  { flags := 0x80, code := 280, applicationId := 0, hopByHopId := 1, endToEndId := 1
    avps := [longAvp], code_lt := by decide }

theorem length_longMessage : longMessage.length = 4108 := by
  have hbody : longMessage.body = longAvp.bytes := List.append_nil _
  have hdata : longAvp.data.length = 4080 := List.length_replicate
  have hvendor : longAvp.vendorBytes.length = 0 := rfl
  rw [Message.length, hbody, WireAvp.length_bytes, WireAvp.length, hdata, hvendor]
  rfl

theorem fits_longMessage : longMessage.length < 2 ^ 24 := by
  rw [length_longMessage]
  decide

/-- The watchdog request as an SCTP message. -/
def longSctpMessage : SctpMessage :=
  ⟨longMessage.command, Message.wellFormed_command fits_longMessage⟩

/-- An answer to a request that is not known. -/
def unknownAnswer : Message :=
  { flags := 0x40, code := 271, applicationId := 4, hopByHopId := 7, endToEndId := 7, avps := []
    code_lt := by decide }

/-- A watchdog request without AVPs. -/
def watchdog : Message :=
  { flags := 0x80, code := 280, applicationId := 0, hopByHopId := 8, endToEndId := 8, avps := []
    code_lt := by decide }

theorem fits_unknownAnswer : unknownAnswer.length < 2 ^ 24 := by decide

theorem fits_watchdog : watchdog.length < 2 ^ 24 := by decide

/-- The answer reaches a client, which has no entry for it, and then the watchdog request. -/
def answerThenWatchdog : List SctpEvent :=
  [.message ⟨unknownAnswer.command, Message.wellFormed_command fits_unknownAnswer⟩
      fun _ => some (.error "No mapping found for answer with hop-by-hop ID 7 and code 271"),
    .message ⟨watchdog.command, Message.wellFormed_command fits_watchdog⟩ fun _ => some (.ok ())]

/-- A message that is not heard is lost. -/
theorem Clean.not_hands {s : SctpReadLoop} {side : SctpEnd} {logs : Command → Bool}
    {event : SctpEvent} (h : s.Clean) (hnot : ¬Hears side logs s event) :
    ¬(side.handleConnection logs s event).Hands := by
  rcases h.step side logs event with ⟨hhears, -⟩ | ⟨-, hlost⟩
  · exact absurd hhears hnot
  · exact hlost

/-- Neither loop hands the long request on. And a client that cannot process the answer
leaves the watchdog request behind it unread. -/
theorem not_hands_longMessage :
    (∀ (side : SctpEnd) (logs : Command → Bool),
      ¬(side.run logs [.message longSctpMessage fun _ => some (.ok ())]).Hands) ∧
      ¬(SctpEnd.client.run (fun _ => true) answerThenWatchdog).Hands := by
  constructor
  · intro side logs
    refine clean_new.not_hands fun hhears => ?_
    have hfits : longSctpMessage.payload.length ≤ 4096 := hhears.1.1
    rw [longSctpMessage, length_payload_command fits_longMessage, length_longMessage] at hfits
    exact absurd hfits (by decide)
  · have hheard : SctpEnd.client.HearsAll (fun _ => true) (answerThenWatchdog.take 1) := by
      refine ⟨fun event he => ?_, List.pairwise_singleton _ _⟩
      obtain rfl := List.mem_singleton.mp he
      refine ⟨?_, fun _ => rfl⟩
      rw [length_payload_command fits_unknownAnswer]
      decide
    obtain ⟨hclean, hended⟩ := clean_of_hearsAll hheard
    have hends : SctpEnd.client.EndsOn answerThenWatchdog[0] := fun hok => by cases hok
    have hunheard : ¬Hears .client (fun _ => true)
        (SctpEnd.client.run (fun _ => true) (answerThenWatchdog.take 1)) answerThenWatchdog[1] :=
      fun hhears => hhears.2 (hended.mpr ⟨_, List.mem_singleton.mpr rfl, hends⟩) _ _ rfl
    have hlost := hclean.not_hands hunheard
    rwa [← run_snoc] at hlost

end SctpReadLoop

end RestDiameterBridge
