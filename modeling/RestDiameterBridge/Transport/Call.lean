import RestDiameterBridge.Command
import RestDiameterBridge.Lib.Program
import RestDiameterBridge.Transport.Connection

/-!
# RestDiameterBridge.Transport.Call

What a task of the bridge awaits. The `async` functions of the transports, the command
processor and the connection manager are programs (`Proc`) over these calls; between two
calls a task runs undisturbed, at a call other tasks may run.

The calls reach the shared id generators, the hop-by-hop id map and the answer manager,
the clock, the connection registry with its routes and redirects, the command handler,
and the sockets.
-/

namespace RestDiameterBridge

/-- One await of a task. Times are milliseconds. -/
inductive Call
  /-- `next_id` of the hop-by-hop id generator. -/
  | nextId
  /-- `next_id` of the end-to-end id generator. -/
  | nextEndToEndId
  /-- `clean_expired_entries` of the id map asks whether it is time to, with the clock as it was
  read before. -/
  | mappingsDue (now : Nat)
  /-- And drops the expired mappings. -/
  | dropMappings
  /-- `add_mapping` puts the mapping in. -/
  | addMapping (newHopByHopId originalHopByHopId : UInt32)
  | removeMapping (newHopByHopId : UInt32)
  /-- `clean_expired_entries` of the answer manager asks whether it is time to. -/
  | answersDue (now : Nat)
  /-- And drops the expired entries. -/
  | dropAnswers
  /-- `prepare_for_answer` puts the info in, with a time limit set before. -/
  | prepareForAnswer (timeout : Nat) (hopByHopId : UInt32)
      (connectionId answerHost answerRealm : String)
  | answerReceived (answer : Command)
  | getAnswerInfo (hopByHopId : UInt32)
  /-- Wait until the answer info, found for the id, is notified, but not past the deadline
  of the `timeout` around the wait. -/
  | notified (deadline : Nat) (hopByHopId : UInt32) (info : Nat)
  /-- Read the clock. -/
  | now
  | getConnectionById (connectionId : String)
  | getConnectionByHostRealm (host realm : String)
  | getConnectionsForRequest (request : Command)
  | getConnectionsByHosts (hosts : List String)
  | addRedirect (answer : Command)
  | handleCommand (command : Command)
  /-- `send` on a connection. -/
  | send (connection : Connection) (command : Command)
  /-- `send` on a connection under a `timeout` with the given deadline. -/
  | sendWithin (deadline : Nat) (connection : Connection) (command : Command)
  /-- The task's own connection: has the capabilities exchange succeeded? -/
  | isConnected
  /-- Write a command to the task's own socket. -/
  | write (command : Command)
  /-- Shut the task's own socket down. -/
  | shutdown

/-- The reply to a call. Calls under a `timeout` reply `none` when it fires. -/
abbrev Call.Reply : Call → Type
  | nextId | nextEndToEndId => UInt32
  | mappingsDue _ | answersDue _ => Bool
  | dropMappings | addMapping .. | dropAnswers | prepareForAnswer .. | addRedirect _ => Unit
  | removeMapping _ => Option UInt32
  | answerReceived _ => Option (String × String × String)
  | getAnswerInfo _ => Option Nat
  | notified .. => Option (Option Command)
  | now => Nat
  | getConnectionById _ | getConnectionByHostRealm .. => Option Connection
  | getConnectionsForRequest _ => Except String (List Connection)
  | getConnectionsByHosts _ => Option (List Connection)
  | handleCommand _ => Except String (Option Command)
  | send .. | write _ | shutdown => Except String Unit
  | sendWithin .. => Option (Except String Unit)
  | isConnected => Bool

instance (c : Call) : Inhabited c.Reply := by cases c <;> exact inferInstance

/-- A task, or a part of one. -/
abbrev Proc (α : Type) := Program Call Call.Reply α

/-- Await one call. -/
abbrev await (c : Call) : Proc c.Reply := Program.perform c

/-! ### Adding to the shared maps -/

/-- How far a clean-up has come. -/
inductive Cleaning
  | start
  /-- The clock has been read. -/
  | asking (now : Nat)
  /-- It is time to. -/
  | due
  | done

/-- The calls of `HopByHopIdMapper::clean_expired_entries`. -/
inductive CleansMappings : Cleaning → (c : Call) → c.Reply → Cleaning → Prop
  | clock {now} : CleansMappings .start .now now (.asking now)
  | early {now} : CleansMappings (.asking now) (.mappingsDue now) false .done
  | due {now} : CleansMappings (.asking now) (.mappingsDue now) true .due
  | drop {u} : CleansMappings .due .dropMappings u .done

/-- The calls of `AnswerManager::clean_expired_entries`. -/
inductive CleansAnswers : Cleaning → (c : Call) → c.Reply → Cleaning → Prop
  | clock {now} : CleansAnswers .start .now now (.asking now)
  | early {now} : CleansAnswers (.asking now) (.answersDue now) false .done
  | due {now} : CleansAnswers (.asking now) (.answersDue now) true .due
  | drop {u} : CleansAnswers .due .dropAnswers u .done

/-- The calls of a clean-up. -/
def Call.CleansUp : Call → Prop
  | now | mappingsDue _ | dropMappings | answersDue _ | dropAnswers => True
  | _ => False

section
variable {cleaning cleaning' : Cleaning} {c : Call} {r : c.Reply}

theorem CleansMappings.cleansUp (h : CleansMappings cleaning c r cleaning') : c.CleansUp := by
  cases h <;> exact trivial

theorem CleansAnswers.cleansUp (h : CleansAnswers cleaning c r cleaning') : c.CleansUp := by
  cases h <;> exact trivial

end

namespace Proc

open Program

/-- `HopByHopIdMapper::clean_expired_entries`. -/
def cleanMappings : Proc Unit := do
  let now ← await .now
  if ← await (.mappingsDue now) then await .dropMappings

/-- `HopByHopIdMapper::add_mapping`. -/
def addMapping (newHopByHopId originalHopByHopId : UInt32) : Proc Unit := do
  cleanMappings
  await (.addMapping newHopByHopId originalHopByHopId)

/-- `AnswerManager::clean_expired_entries`. -/
def cleanAnswers : Proc Unit := do
  let now ← await .now
  if ← await (.answersDue now) then await .dropAnswers

/-- `AnswerManager::prepare_for_answer`. -/
def prepareForAnswer (hopByHopId : UInt32) (connectionId answerHost answerRealm : String) :
    Proc Unit := do
  cleanAnswers
  let now ← await .now
  await (.prepareForAnswer (now + 60000) hopByHopId connectionId answerHost answerRealm)

theorem cleanMappings_follows :
    Follows CleansMappings (fun cleaning _ => cleaning = .done) .start cleanMappings := by
  refine fun now => ⟨_, .clock, fun due => ?_⟩
  cases due with
  | false => exact ⟨_, .early, rfl⟩
  | true => exact ⟨_, .due, fun _ => ⟨_, .drop, rfl⟩⟩

theorem cleanAnswers_follows :
    Follows CleansAnswers (fun cleaning _ => cleaning = .done) .start cleanAnswers := by
  refine fun now => ⟨_, .clock, fun due => ?_⟩
  cases due with
  | false => exact ⟨_, .early, rfl⟩
  | true => exact ⟨_, .due, fun _ => ⟨_, .drop, rfl⟩⟩

theorem cleanMappings_uses : cleanMappings.Uses Call.CleansUp := by
  refine ⟨trivial, fun now => ⟨trivial, fun due => ?_⟩⟩
  cases due with
  | false => exact trivial
  | true => exact ⟨trivial, fun _ => trivial⟩

theorem cleanAnswers_uses : cleanAnswers.Uses Call.CleansUp := by
  refine ⟨trivial, fun now => ⟨trivial, fun due => ?_⟩⟩
  cases due with
  | false => exact trivial
  | true => exact ⟨trivial, fun _ => trivial⟩

theorem addMapping_uses {newId original : UInt32} :
    (addMapping newId original).Uses fun c => c.CleansUp ∨ c = .addMapping newId original :=
  (cleanMappings_uses.mono fun _ => .inl).bind fun _ => ⟨.inr rfl, fun _ => trivial⟩

theorem prepareForAnswer_uses {id : UInt32} {connectionId host realm : String} :
    (prepareForAnswer id connectionId host realm).Uses fun c =>
      c.CleansUp ∨ ∃ timeout, c = .prepareForAnswer timeout id connectionId host realm :=
  (cleanAnswers_uses.mono fun _ => .inl).bind fun _ =>
    ⟨.inl trivial, fun _ => ⟨.inr ⟨_, rfl⟩, fun _ => trivial⟩⟩

section
variable {S α : Type} {protocol : S → (c : Call) → c.Reply → S → Prop} {post : S → α → Prop}
  {f : Unit → Proc α}

/-- A mapping is added in a protocol that has a part for the clean-up. -/
theorem follows_addMapping {newId original : UInt32} (embed : Cleaning → S)
    (hclean : ∀ t c r t', CleansMappings t c r t' → protocol (embed t) c r (embed t'))
    (h : ∃ s, protocol (embed .done) (.addMapping newId original) () s ∧
      Follows protocol post s (f ())) :
    Follows protocol post (embed .start) (addMapping newId original >>= f) := by
  rw [addMapping, bind_assoc]
  refine (cleanMappings_follows.embed embed hclean).bind fun s _ hs => ?_
  obtain ⟨_, rfl, rfl⟩ := hs
  exact fun _ => h

/-- An answer is prepared for. -/
theorem follows_prepareForAnswer {id : UInt32} {connectionId host realm : String}
    (embed : Cleaning → S)
    (hclean : ∀ t c r t', CleansAnswers t c r t' → protocol (embed t) c r (embed t'))
    (h : ∀ now, ∃ s, protocol (embed .done) .now now s ∧
      ∃ s', protocol s (.prepareForAnswer (now + 60000) id connectionId host realm) () s' ∧
        Follows protocol post s' (f ())) :
    Follows protocol post (embed .start) (prepareForAnswer id connectionId host realm >>= f) := by
  rw [prepareForAnswer, bind_assoc]
  refine (cleanAnswers_follows.embed embed hclean).bind fun s _ hs => ?_
  obtain ⟨_, rfl, rfl⟩ := hs
  intro now
  obtain ⟨s, hclock, hprepare⟩ := h now
  exact ⟨s, hclock, fun _ => hprepare⟩

end

end Proc

end RestDiameterBridge
