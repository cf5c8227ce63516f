import RestDiameterBridge.Alarm
import RestDiameterBridge.Lib.Transition

/-!
# RestDiameterBridge.AlarmCalls

Calls of `AlarmStore::raise` and `clear` that run at the same time (`src/alarm.rs`).

A `raise` gives the database lock back before it takes the lock of the map, a `clear` keeps
it until it is through with the map. So a `clear` can run between the two sections of a
`raise` of the same alarm. `agree_of_run` says that the two copies agree in every run where
none does, `disagree_of_clearMemory` that one that does can always end badly.
-/

namespace RestDiameterBridge

/-- The store with its calls in progress: the raises that are between their two sections, and
the id of the `clear` that holds the database lock. -/
structure AlarmCalls where
  store : AlarmStore
  raising : List Alarm
  clearing : Option String

namespace AlarmCalls

/-- A section of a call. -/
inductive Section
  | raiseDb (alarm : Alarm)
  /-- Of the `i`-th call of `raise` that is in progress. -/
  | raiseMemory (i : Nat)
  | clearDb (now : Nat) (alarmId : String)
  | clearMemory

/-- A section of the database waits for the lock. -/
def step (s : AlarmCalls) : Section → Option AlarmCalls
  | .raiseDb alarm =>
      if s.clearing = none then
        some { s with store := s.store.raiseDb alarm, raising := s.raising ++ [alarm] }
      else none
  | .raiseMemory i => s.raising[i]?.map fun alarm =>
      { s with store := s.store.raiseMemory alarm, raising := s.raising.eraseIdx i }
  | .clearDb now alarmId =>
      if s.clearing = none then
        some { s with store := s.store.clearDb now alarmId, clearing := some alarmId }
      else none
  | .clearMemory => s.clearing.map fun alarmId =>
      { s with store := s.store.clearMemory alarmId, clearing := none }

/-- A store freshly opened on a database. -/
def start (db : AlarmDb) (now : Nat) : AlarmCalls where
  store := .new db now
  raising := []
  clearing := none

/-- No call is in progress. -/
def Quiet (s : AlarmCalls) : Prop := s.raising = [] ∧ s.clearing = none

/-- The map and the table `active_alarms` have the same ids. -/
def Agree (s : AlarmCalls) : Prop :=
  ∀ id, id ∈ s.store.activeAlarms ↔ id ∈ s.store.db.activeAlarms

/-- The memory section of a `clear` does not meet a `raise` of the same alarm between its two
sections. -/
def Apart (s : AlarmCalls) (l : Section) (_ : AlarmCalls) : Prop :=
  l = .clearMemory → ∀ alarm ∈ s.raising, s.clearing ≠ some alarm.alarmId

variable {s t : AlarmCalls} {l : Section}

/-- What a section can do. -/
theorem step_cases (h : s.step l = some t) :
    (∃ alarm, l = .raiseDb alarm ∧ s.clearing = none ∧
      t = { s with store := s.store.raiseDb alarm, raising := s.raising ++ [alarm] }) ∨
    (∃ i alarm, l = .raiseMemory i ∧ s.raising[i]? = some alarm ∧
      t = { s with store := s.store.raiseMemory alarm, raising := s.raising.eraseIdx i }) ∨
    (∃ now id, l = .clearDb now id ∧ s.clearing = none ∧
      t = { s with store := s.store.clearDb now id, clearing := some id }) ∨
    ∃ id, l = .clearMemory ∧ s.clearing = some id ∧
      t = { s with store := s.store.clearMemory id, clearing := none } := by
  cases l with
  | raiseDb alarm =>
    simp only [step, Option.ite_none_right_eq_some, Option.some.injEq] at h
    exact .inl ⟨alarm, rfl, h.1, h.2.symm⟩
  | raiseMemory i =>
    obtain ⟨alarm, halarm, rfl⟩ := Option.map_eq_some_iff.mp h
    exact .inr (.inl ⟨i, alarm, rfl, halarm, rfl⟩)
  | clearDb now id =>
    simp only [step, Option.ite_none_right_eq_some, Option.some.injEq] at h
    exact .inr (.inr (.inl ⟨now, id, rfl, h.1, h.2.symm⟩))
  | clearMemory =>
    obtain ⟨id, hid, rfl⟩ := Option.map_eq_some_iff.mp h
    exact .inr (.inr (.inr ⟨id, rfl, hid, rfl⟩))

/-- A `raise` that nothing overlaps is the one of the store. -/
theorem run_raise (hfree : s.clearing = none) (alarm : Alarm) :
    Transition.run step s [.raiseDb alarm, .raiseMemory s.raising.length] =
      some { s with store := s.store.raise alarm } := by
  simp [Transition.run, step, hfree, List.eraseIdx_append_of_length_le, AlarmStore.raise]

/-- And so is a `clear`. -/
theorem run_clear (hfree : s.clearing = none) (now : Nat) (id : String) :
    Transition.run step s [.clearDb now id, .clearMemory] =
      some { s with store := s.store.clear now id } := by
  simp [Transition.run, step, hfree, AlarmStore.clear]

/-! ### The copies of the alarms -/

/-- How the two copies differ while calls are in progress: the map still has the alarm that is
being cleared, and not yet those that are being raised. -/
structure Consistent (s : AlarmCalls) : Prop where
  persisted : ∀ id ∈ s.store.activeAlarms,
    id ∈ s.store.db.activeAlarms ∨ s.clearing = some id
  recorded : ∀ id ∈ s.store.db.activeAlarms,
    id ∈ s.store.activeAlarms ∨ ∃ alarm ∈ s.raising, alarm.alarmId = id
  raised : ∀ alarm ∈ s.raising,
    alarm.alarmId ∈ s.store.db.activeAlarms ∨ s.clearing = some alarm.alarmId
  cleared : ∀ id, s.clearing = some id → id ∉ s.store.db.activeAlarms

theorem Consistent.agree (hs : s.Consistent) (hquiet : s.Quiet) : s.Agree := by
  obtain ⟨hraising, hclearing⟩ := hquiet
  intro id
  constructor
  · intro hid
    exact (hs.persisted id hid).resolve_right (by simp [hclearing])
  · intro hid
    exact (hs.recorded id hid).resolve_right (by simp [hraising])

theorem consistent_start (db : AlarmDb) (now : Nat) : (start db now).Consistent where
  persisted := fun _ hid => .inl (AlarmDb.mem_load.mp hid)
  recorded := fun _ hid => .inl (AlarmDb.mem_load.mpr hid)
  raised := fun _ h => nomatch h
  cleared := fun _ h => nomatch h

theorem Consistent.raiseDb (hs : s.Consistent) (alarm : Alarm) (hfree : s.clearing = none) :
    Consistent { s with store := s.store.raiseDb alarm, raising := s.raising ++ [alarm] } where
  persisted := by
    intro id hid
    exact (hs.persisted id hid).imp_left fun h => (AList.mem_insert _).mpr (.inr h)
  recorded := by
    intro id hid
    rcases (AList.mem_insert _).mp hid with rfl | hid
    · exact .inr ⟨alarm, by simp, rfl⟩
    · obtain h | ⟨other, hother, hid⟩ := hs.recorded id hid
      · exact .inl h
      · exact .inr ⟨other, List.mem_append_left _ hother, hid⟩
  raised := by
    intro other hother
    refine .inl ((AList.mem_insert _).mpr ?_)
    rcases List.mem_append.mp hother with hother | hother
    · exact .inr ((hs.raised other hother).resolve_right (by simp [hfree]))
    · rw [List.mem_singleton.mp hother]
      exact .inl rfl
  cleared := by
    intro id hid
    simp [hfree] at hid

theorem Consistent.raiseMemory (hs : s.Consistent) {alarm : Alarm} {i : Nat}
    (hi : s.raising[i]? = some alarm) :
    Consistent { s with store := s.store.raiseMemory alarm, raising := s.raising.eraseIdx i } where
  persisted := by
    intro id hid
    rcases (AList.mem_insert _).mp hid with rfl | hid
    · exact hs.raised alarm (List.mem_of_getElem? hi)
    · exact hs.persisted id hid
  recorded := by
    intro id hid
    obtain h | ⟨other, hother, rfl⟩ := hs.recorded id hid
    · exact .inl ((AList.mem_insert _).mpr (.inr h))
    · -- another raise with the id may go on
      by_cases h : other = alarm
      · exact .inl ((AList.mem_insert _).mpr (.inl (h ▸ rfl)))
      · refine .inr ⟨other, ?_, rfl⟩
        obtain ⟨j, hj⟩ := List.mem_iff_getElem?.mp hother
        refine List.mem_eraseIdx_iff_getElem?.mpr ⟨j, ?_, hj⟩
        rintro rfl
        exact h (Option.some.inj (hj.symm.trans hi))
  raised := fun other hother => hs.raised other (List.mem_of_mem_eraseIdx hother)
  cleared := hs.cleared

theorem Consistent.clearDb (hs : s.Consistent) (now : Nat) (id : String)
    (hfree : s.clearing = none) :
    Consistent { s with store := s.store.clearDb now id, clearing := some id } where
  persisted := by
    intro other hother
    by_cases h : other = id
    · exact .inr (h ▸ rfl)
    · have hdb := (hs.persisted other hother).resolve_right (by simp [hfree])
      exact .inl (AList.mem_erase.mpr ⟨h, hdb⟩)
  recorded := fun other hother => hs.recorded other (AList.mem_erase.mp hother).2
  raised := by
    intro alarm halarm
    by_cases h : alarm.alarmId = id
    · exact .inr (h ▸ rfl)
    · have hdb := (hs.raised alarm halarm).resolve_right (by simp [hfree])
      exact .inl (AList.mem_erase.mpr ⟨h, hdb⟩)
  cleared := by
    rintro other hother hdb
    exact (AList.mem_erase.mp hdb).1 (Option.some.inj hother).symm

/-- The one section that needs the calls to be apart: the map forgets the alarm, so no `raise`
that is in progress may have written its row before the `clear`. -/
theorem Consistent.clearMemory (hs : s.Consistent) {id : String} (hid : s.clearing = some id)
    (hapart : ∀ alarm ∈ s.raising, s.clearing ≠ some alarm.alarmId) :
    Consistent { s with store := s.store.clearMemory id, clearing := none } where
  persisted := by
    intro other hother
    obtain ⟨hne, hmem⟩ := AList.mem_erase.mp hother
    refine .inl ((hs.persisted other hmem).resolve_right fun h => hne ?_)
    exact Option.some.inj (h.symm.trans hid)
  recorded := by
    intro other hother
    refine (hs.recorded other hother).imp_left fun h => AList.mem_erase.mpr ⟨?_, h⟩
    rintro rfl
    exact hs.cleared other hid hother
  raised := fun alarm halarm =>
    .inl ((hs.raised alarm halarm).resolve_right (hapart alarm halarm))
  cleared := fun _ h => nomatch h

theorem Consistent.step (hs : s.Consistent) (hapart : Apart s l t) (h : s.step l = some t) :
    t.Consistent := by
  obtain ⟨alarm, rfl, hfree, rfl⟩ | ⟨i, alarm, rfl, hi, rfl⟩ | ⟨now, id, rfl, hfree, rfl⟩ |
    ⟨id, rfl, hid, rfl⟩ := step_cases h
  · exact hs.raiseDb alarm hfree
  · exact hs.raiseMemory hi
  · exact hs.clearDb now id hfree
  · exact hs.clearMemory hid (hapart rfl)

/-! ### Runs -/

/-- The raises in progress can all be finished. -/
theorem run_raiseMemory (hfree : s.clearing = none) :
    ∃ ls t, Transition.run step s ls = some t ∧ t.Quiet ∧
      t.store.db = s.store.db ∧ (∀ id ∈ s.store.activeAlarms, id ∈ t.store.activeAlarms) ∧
      ∀ alarm ∈ s.raising, alarm.alarmId ∈ t.store.activeAlarms := by
  obtain ⟨store, raising, clearing⟩ := s
  obtain rfl : clearing = none := hfree
  induction raising generalizing store with
  | nil => exact ⟨[], _, rfl, ⟨rfl, rfl⟩, rfl, fun _ h => h, fun _ h => nomatch h⟩
  | cons alarm raising ih =>
    obtain ⟨ls, t, hrun, hquiet, hdb, hkeep, hall⟩ := ih (store.raiseMemory alarm)
    refine ⟨.raiseMemory 0 :: ls, t, hrun, hquiet, hdb, ?_, ?_⟩
    · intro id hid
      exact hkeep id ((AList.mem_insert _).mpr (.inr hid))
    · intro other hother
      rcases List.mem_cons.mp hother with rfl | hother
      · exact hkeep _ ((AList.mem_insert _).mpr (.inl rfl))
      · exact hall other hother

/-- A `clear` that meets a `raise` of the same alarm between its sections can leave the map
with an alarm that the table does not have. -/
theorem disagree_of_clearMemory {id : String} {alarm : Alarm} (hs : s.Consistent)
    (hid : s.clearing = some id) (halarm : alarm ∈ s.raising) (hsame : alarm.alarmId = id) :
    ∃ ls t, Transition.run step s (.clearMemory :: ls) = some t ∧ t.Quiet ∧ ¬t.Agree := by
  obtain ⟨ls, t, hrun, hquiet, hdb, -, hall⟩ :=
    run_raiseMemory (s := { s with store := s.store.clearMemory id, clearing := none }) rfl
  refine ⟨ls, t, ?_, hquiet, fun hagree => ?_⟩
  · simpa [Transition.run, step, hid] using hrun
  · have hmem : id ∈ t.store.activeAlarms := hsame ▸ hall alarm halarm
    rw [hagree id, hdb] at hmem
    exact hs.cleared id hid hmem

/-- As long as the memory section of a `clear` never meets a `raise` of the same alarm between
its sections, the map and the table have the same ids whenever no call is in progress. -/
theorem agree_of_run {db : AlarmDb} {now : Nat} {ls : List Section}
    (hapart : Transition.Always step Apart (start db now) ls)
    (hrun : Transition.run step (start db now) ls = some t) (hquiet : t.Quiet) : t.Agree := by
  have ht : t.Consistent := by
    refine hapart.invariant ?_ (consistent_start db now) hrun
    intro s l t hs hapart h
    exact hs.step hapart h
  exact ht.agree hquiet

def linkDown : Alarm :=
  .new 0 "10.0.0.1:4001" "peer1" "realm" .major "Lost connection"

def linkLost : Alarm :=
  .new 0 "10.0.0.2:4001" "peer2" "realm" .major "Lost connection"

def clearBesideRaise : List Section :=
  [.raiseDb linkDown, .raiseMemory 0, .raiseDb linkLost, .clearDb 1 linkDown.alarmId, .clearMemory,
    .raiseMemory 0]

/-- An alarm is cleared while another one is being raised. -/
theorem agree_clearBesideRaise :
    ∃ t, Transition.run step (start ⟨∅, []⟩ 0) clearBesideRaise = some t ∧ t.Agree := by
  have hother : linkDown.alarmId ≠ linkLost.alarmId := by decide
  have hapart : Transition.Always step Apart (start ⟨∅, []⟩ 0) clearBesideRaise := by
    simp [clearBesideRaise, Transition.Always, step, start, Apart, hother]
  exact ⟨_, rfl, agree_of_run hapart rfl ⟨rfl, rfl⟩⟩

/-- The alarm is cleared after its row is written and before it is in the map. -/
theorem not_agree_cleared_between :
    ¬∀ (db : AlarmDb) (now : Nat) (ls : List Section) (t : AlarmCalls),
      Transition.run step (start db now) ls = some t → t.Quiet → t.Agree := by
  intro h
  have hagree := h ⟨∅, []⟩ 0
    [.raiseDb linkDown, .clearDb 1 linkDown.alarmId, .clearMemory, .raiseMemory 0] _ rfl ⟨rfl, rfl⟩
  have hmem := (hagree linkDown.alarmId).mp ((AList.mem_insert _).mpr (.inl rfl))
  exact (AList.mem_erase.mp hmem).1 rfl

end AlarmCalls

end RestDiameterBridge
