import Mathlib.Data.List.AList

/-!
# RestDiameterBridge.Alarm

Alarms about Diameter peers and the store that keeps them twice, in memory and in a
database (`src/alarm.rs`).

Each of `AlarmStore::raise` and `clear` is the two sections it runs under the database lock
and under the lock of the map. Every SQL statement succeeds.
-/

namespace RestDiameterBridge

/-- The severity level of a Diameter peer alarm. -/
inductive AlarmSeverity
  | critical
  | major
  | minor
  | warning
  | clear

namespace AlarmSeverity

def asStr : AlarmSeverity → String
  | critical => "CRITICAL"
  | major => "MAJOR"
  | minor => "MINOR"
  | warning => "WARNING"
  | clear => "CLEAR"

/-- The severity of a persisted alarm. A stored `CLEAR` counts as unknown. -/
def ofStr : String → AlarmSeverity
  | "CRITICAL" => critical
  | "MAJOR" => major
  | "MINOR" => minor
  | "WARNING" => warning
  | _ => major

end AlarmSeverity

/-- A Diameter peer connectivity alarm. -/
structure Alarm where
  alarmId : String
  severity : AlarmSeverity
  peerAddress : String
  diameterHost : String
  diameterRealm : String
  description : String
  raisedAt : Nat

/-- The id of the alarms about a host reached under an address. -/
def peerAlarmId (peerAddress diameterHost : String) : String :=
  "DIAMETER_PEER_" ++ diameterHost ++ "@" ++ peerAddress

def Alarm.new (now : Nat) (peerAddress diameterHost diameterRealm : String)
    (severity : AlarmSeverity) (description : String) : Alarm :=
  { alarmId := peerAlarmId peerAddress diameterHost
    severity, peerAddress, diameterHost, diameterRealm, description
    raisedAt := now }

/-- The columns beside `alarm_id`. The last one is the time its text stands for, if it
stands for one. -/
structure AlarmRow where
  severity : String
  peerAddress : String
  diameterHost : String
  diameterRealm : String
  description : String
  raisedAt : Option Nat

def Alarm.row (alarm : Alarm) : AlarmRow :=
  { alarm with
    severity := alarm.severity.asStr
    raisedAt := some alarm.raisedAt }

/-- An alarm read back from its row. -/
def AlarmRow.alarm (now : Nat) (alarmId : String) (row : AlarmRow) : Alarm :=
  { row with
    alarmId
    severity := .ofStr row.severity
    raisedAt := row.raisedAt.getD now }

/-- The database: the table `active_alarms` under its primary key and the rows of
`alarm_history` in order of their ids. -/
structure AlarmDb where
  activeAlarms : AList fun _ : String => AlarmRow
  alarmHistory : List (String × AlarmRow)

namespace AlarmDb

/-- The two statements of `raise`. -/
def insert (db : AlarmDb) (alarm : Alarm) : AlarmDb where
  activeAlarms := db.activeAlarms.insert alarm.alarmId alarm.row
  alarmHistory := db.alarmHistory ++ [(alarm.alarmId, alarm.row)]

/-- The two statements of `clear`. -/
def delete (db : AlarmDb) (now : Nat) (alarmId : String) : AlarmDb where
  activeAlarms := db.activeAlarms.erase alarmId
  alarmHistory := db.alarmHistory ++ [(alarmId,
    { severity := "CLEAR"
      peerAddress := ""
      diameterHost := ""
      diameterRealm := ""
      description := "Alarm cleared"
      raisedAt := some now })]

/-- The alarms that a store starts from. -/
def load (db : AlarmDb) (now : Nat) : AList fun _ : String => Alarm where
  entries := db.activeAlarms.entries.map (.map id fun alarmId row => row.alarm now alarmId)
  nodupKeys := .map₂ _ _ db.activeAlarms.nodupKeys

@[simp] theorem lookup_load (db : AlarmDb) (now : Nat) (alarmId : String) :
    (db.load now).lookup alarmId = (db.activeAlarms.lookup alarmId).map (·.alarm now alarmId) :=
  List.dlookup_map₂ alarmId

@[simp] theorem mem_load {db : AlarmDb} {now : Nat} {alarmId : String} :
    alarmId ∈ db.load now ↔ alarmId ∈ db.activeAlarms := by
  rw [← AList.lookup_isSome, lookup_load, Option.isSome_map, AList.lookup_isSome]

end AlarmDb

/-- In-memory + SQLite backed alarm store. The map holds every alarm under its id. -/
structure AlarmStore where
  activeAlarms : AList fun _ : String => Alarm
  db : AlarmDb
  keyed : ∀ id alarm, activeAlarms.lookup id = some alarm → alarm.alarmId = id

namespace AlarmStore

/-- Opens the database and loads the persisted alarms. -/
def new (db : AlarmDb) (now : Nat) : AlarmStore where
  activeAlarms := db.load now
  db := db
  keyed := by
    intro id alarm h
    obtain ⟨row, -, rfl⟩ := Option.map_eq_some_iff.mp ((db.lookup_load now id).symm.trans h)
    rfl

/-- The section of `raise` under the database lock. -/
def raiseDb (store : AlarmStore) (alarm : Alarm) : AlarmStore :=
  { store with db := store.db.insert alarm }

/-- The section of `raise` under the lock of the map. -/
def raiseMemory (store : AlarmStore) (alarm : Alarm) : AlarmStore where
  activeAlarms := store.activeAlarms.insert alarm.alarmId alarm
  db := store.db
  keyed := by
    intro id other h
    by_cases hid : id = alarm.alarmId
    · subst hid
      rw [AList.lookup_insert] at h
      rw [← Option.some.inj h]
    · rw [AList.lookup_insert_ne hid] at h
      exact store.keyed id other h

/-- The statements of `clear`, under the database lock. -/
def clearDb (store : AlarmStore) (now : Nat) (alarmId : String) : AlarmStore :=
  { store with db := store.db.delete now alarmId }

/-- The section of `clear` under the lock of the map. -/
def clearMemory (store : AlarmStore) (alarmId : String) : AlarmStore where
  activeAlarms := store.activeAlarms.erase alarmId
  db := store.db
  keyed := by
    intro id alarm h
    have hid : id ≠ alarmId := by
      rintro rfl
      rw [AList.lookup_erase] at h
      cases h
    rw [AList.lookup_erase_ne hid] at h
    exact store.keyed id alarm h

/-- Persists the alarm and records it in the active alarm set. -/
def raise (store : AlarmStore) (alarm : Alarm) : AlarmStore :=
  (store.raiseDb alarm).raiseMemory alarm

/-- Removes the alarm from the active set and records a clear event. -/
def clear (store : AlarmStore) (now : Nat) (alarmId : String) : AlarmStore :=
  (store.clearDb now alarmId).clearMemory alarmId

def getAlarm (store : AlarmStore) (alarmId : String) : Option Alarm :=
  store.activeAlarms.lookup alarmId

def getActiveAlarms (store : AlarmStore) : List Alarm :=
  store.activeAlarms.entries.map (·.2)

variable {store : AlarmStore} {alarm : Alarm}

theorem mem_getActiveAlarms : alarm ∈ store.getActiveAlarms ↔
    store.getAlarm alarm.alarmId = some alarm := by
  rw [getActiveAlarms, List.mem_map, getAlarm, ← Option.mem_def, AList.mem_lookup_iff]
  constructor
  · rintro ⟨⟨id, _⟩, he, rfl⟩
    obtain rfl := store.keyed id _ (AList.mem_lookup_iff.mpr he)
    exact he
  · intro h
    exact ⟨_, h, rfl⟩

/-- After a `raise` the new alarm is active, and all others with another id that were. -/
theorem mem_getActiveAlarms_raise {other : Alarm} :
    other ∈ (store.raise alarm).getActiveAlarms ↔
      other = alarm ∨ other ∈ store.getActiveAlarms ∧ other.alarmId ≠ alarm.alarmId := by
  rw [mem_getActiveAlarms, mem_getActiveAlarms]
  by_cases hid : other.alarmId = alarm.alarmId
  · have hl : (store.raise alarm).getAlarm other.alarmId = some alarm := by
      rw [hid]
      exact AList.lookup_insert _
    rw [hl, Option.some_inj, eq_comm]
    exact ⟨.inl, fun h => h.resolve_right fun h => h.2 hid⟩
  · have hne : other ≠ alarm := fun h => hid (h ▸ rfl)
    have hl : (store.raise alarm).getAlarm other.alarmId = store.getAlarm other.alarmId :=
      AList.lookup_insert_ne hid
    rw [hl]
    exact ⟨fun h => .inr ⟨h, hid⟩, fun h => (h.resolve_left hne).1⟩

/-- After a `clear` the active alarms with another id are left. -/
theorem mem_getActiveAlarms_clear {now : Nat} {id : String} :
    alarm ∈ (store.clear now id).getActiveAlarms ↔
      alarm ∈ store.getActiveAlarms ∧ alarm.alarmId ≠ id := by
  rw [mem_getActiveAlarms, mem_getActiveAlarms]
  by_cases hid : alarm.alarmId = id
  · have hl : (store.clear now id).getAlarm alarm.alarmId = none := by
      rw [hid]
      exact AList.lookup_erase _ _
    rw [hl]
    exact ⟨fun h => (nomatch h), fun h => absurd hid h.2⟩
  · have hl : (store.clear now id).getAlarm alarm.alarmId = store.getAlarm alarm.alarmId :=
      AList.lookup_erase_ne hid
    rw [hl]
    exact ⟨fun h => ⟨h, hid⟩, And.left⟩

end AlarmStore

/-- Stores alarms and sends them to a remote web server, if there is one. -/
structure AlarmSender where
  url : Option String
  store : AlarmStore
  sent : List (String × Alarm)

namespace AlarmSender

def sendAlarm (sender : AlarmSender) (alarm : Alarm) : AlarmSender :=
  match sender.url with
  | none => sender
  | some url => { sender with sent := sender.sent ++ [(url, alarm)] }

/-- Raises a Major-severity alarm for the given peer and forwards it. -/
def raiseAlarm (sender : AlarmSender) (now : Nat)
    (peerAddress diameterHost diameterRealm description : String) : AlarmSender :=
  let alarm := Alarm.new now peerAddress diameterHost diameterRealm .major description
  { sender with store := sender.store.raise alarm }.sendAlarm alarm

/-- Clears the alarm for the given peer and forwards a Clear event. -/
def clearAlarm (sender : AlarmSender) (now : Nat)
    (peerAddress diameterHost diameterRealm : String) : AlarmSender :=
  let alarm := Alarm.new now peerAddress diameterHost diameterRealm .clear
    "Connection to diameter peer established"
  { sender with store := sender.store.clear now alarm.alarmId }.sendAlarm alarm

@[simp] theorem sendAlarm_store (sender : AlarmSender) (alarm : Alarm) :
    (sender.sendAlarm alarm).store = sender.store := by
  rw [sendAlarm]
  split <;> rfl

end AlarmSender

end RestDiameterBridge
