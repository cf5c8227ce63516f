import RestDiameterBridge.Lib.Notify
import RestDiameterBridge.Lib.Transition
import RestDiameterBridge.Transport.Matching

/-!
# RestDiameterBridge.Transport.AnswerCalls

Calls of `answer_received` and `wait_answer` that run at the same time
(`src/transport/answer_manager.rs`).

An answer is put into its info first and then signalled, a wait takes the signal first and
reads the answer then. `no_lost_wakeup` says that this loses no signal, in whatever order the
steps of the calls come, `received_eq` and `waited_eq` that a call nothing overlaps is the one of
`AnswerManager`.
-/

namespace RestDiameterBridge

/-- What is shared about a request that awaits its answer. Whoever waits is known by the id. -/
structure SharedInfo where
  origin : String × String × String
  answer : Option Command
  notify : Notify UInt32

/-- An info nobody waits for. -/
def SharedInfo.idle (i : AnswerInfo) : SharedInfo where
  origin := i.origin
  answer := i.answer
  notify := { Notify.new with permit := i.notified, waiting_of_permit := fun _ => rfl }

/-- How far a call of `answer_received` has come. -/
inductive Receiving.Stage
  | started
  /-- The info was found. -/
  | found
  /-- The answer is in the info. -/
  | stored
  | completed (origin : Option (String × String × String))

/-- A call of `answer_received`. -/
structure Receiving where
  answer : Command
  stage : Receiving.Stage

/-- A call of `wait_answer`. -/
inductive Waiting
  | started
  /-- The info was found. -/
  | found
  /-- There was no permit. -/
  | registered
  /-- The wait for the signal is over. -/
  | notified
  | completed (answer : Option Command)

/-- The infos, the calls of `answer_received` in the order they were made, and the calls of
`wait_answer` by their ids. No info is removed or replaced, so that a call finds the one it holds
under its id. -/
structure AnswerCalls where
  infos : UInt32 → Option SharedInfo
  receiving : List Receiving
  waiting : UInt32 → Option Waiting

namespace AnswerCalls

/-- The answers to the given ids have been prepared for. -/
def start (prepared : AList fun _ : UInt32 => String × String × String) : AnswerCalls where
  infos := fun id => (prepared.lookup id).map fun origin => ⟨origin, none, .new⟩
  receiving := []
  waiting := fun _ => none

/-- A call is made, or the call of a number or an id goes on. -/
inductive Step
  | receive (answer : Command)
  | getInfo (k : Nat)
  | setAnswer (k : Nat)
  | notifyOne (k : Nat)
  | wait (id : UInt32)
  | findInfo (id : UInt32)
  | awaitNotified (id : UInt32)
  | resume (id : UInt32)
  | readAnswer (id : UInt32)

/-- The `k`-th call of `answer_received` has come to a stage. -/
def received (s : AnswerCalls) (k : Nat) (answer : Command) (stage : Receiving.Stage) : AnswerCalls :=
  { s with receiving := s.receiving.set k ⟨answer, stage⟩ }

/-- The call of `wait_answer` has come to a stage. -/
def waited (s : AnswerCalls) (id : UInt32) (stage : Waiting) : AnswerCalls :=
  { s with waiting := Function.update s.waiting id (some stage) }

/-- The info of an id is changed. -/
def setInfo (s : AnswerCalls) (id : UInt32) (info : SharedInfo) : AnswerCalls :=
  { s with infos := Function.update s.infos id (some info) }

def step (s : AnswerCalls) : Step → Option AnswerCalls
  | .receive answer => some { s with receiving := s.receiving ++ [⟨answer, .started⟩] }
  | .getInfo k =>
      match s.receiving[k]? with
      -- `get_answer_info`, under the lock of the map
      | some ⟨answer, .started⟩ =>
          match s.infos answer.hopByHopId with
          | some _ => some (s.received k answer .found)
          | none => some (s.received k answer (.completed none))
      | _ => none
  | .setAnswer k =>
      match s.receiving[k]? with
      -- the lock of the answer is given back before the signal
      | some ⟨answer, .found⟩ => (s.infos answer.hopByHopId).map fun info =>
          (s.setInfo answer.hopByHopId { info with answer := some answer }).received k answer .stored
      | _ => none
  | .notifyOne k =>
      match s.receiving[k]? with
      | some ⟨answer, .stored⟩ => (s.infos answer.hopByHopId).map fun info =>
          (s.setInfo answer.hopByHopId { info with notify := info.notify.notifyOne }).received k answer
            (.completed (some info.origin))
      | _ => none
  | .wait id =>
      match s.waiting id with
      | none => some (s.waited id .started)
      | some _ => none
  | .findInfo id =>
      match s.waiting id with
      | some .started =>
          match s.infos id with
          | some _ => some (s.waited id .found)
          | none => some (s.waited id (.completed none))
      | _ => none
  | .awaitNotified id =>
      match s.waiting id with
      | some .found => (s.infos id).map fun info =>
          (s.setInfo id { info with notify := (info.notify.notified id).2 }).waited id
            (if (info.notify.notified id).1 then .notified else .registered)
      | _ => none
  | .resume id =>
      match s.waiting id with
      -- only once it has been signalled
      | some .registered => (s.infos id).bind fun info => (info.notify.resume id).map fun notify =>
          (s.setInfo id { info with notify }).waited id .notified
      | _ => none
  | .readAnswer id =>
      match s.waiting id with
      | some .notified => (s.infos id).map fun info => s.waited id (.completed info.answer)
      | _ => none

/-- The call of `wait_answer` is in progress and cannot go on. -/
def Blocked (s : AnswerCalls) (id : UInt32) : Prop :=
  (∃ w, s.waiting id = some w ∧ ∀ answer, w ≠ .completed answer) ∧
    ∀ l ∈ [Step.findInfo id, .awaitNotified id, .resume id, .readAnswer id], s.step l = none

/-- No wait is blocked for whose id a call of `answer_received` has completed, and a wait for
which there is an info completes with an answer under its id. -/
structure NoLostWakeup (s : AnswerCalls) : Prop where
  live : ∀ call ∈ s.receiving, ∀ origin, call.stage = .completed origin →
    ¬s.Blocked call.answer.hopByHopId
  own : ∀ id answer, s.infos id ≠ none → s.waiting id = some (.completed answer) →
    ∃ a, answer = some a ∧ a.hopByHopId = id

/-! ### What holds of an id -/

/-- The wait is past the signal. -/
def Over (w : Option Waiting) : Prop :=
  w = some .notified ∨ ∃ answer, w = some (.completed answer)

/-- An info agrees with the wait for it: answers are put in before they are signalled, and the
only one to wait is the wait of the id. -/
structure Agrees (id : UInt32) (info : SharedInfo) (w : Option Waiting) : Prop where
  answer : ∀ a, info.answer = some a → a.hopByHopId = id
  signalled : info.notify.Signalled ∨ w = some .notified → info.answer ≠ none
  queue : w ≠ some .registered ∧ info.notify.waiting = [] ∧ info.notify.woken = [] ∨
    w = some .registered ∧ (info.notify.waiting = [id] ∧ info.notify.woken = [] ∨
      info.notify.waiting = [] ∧ info.notify.woken = [id])
  result : ∀ answer, w = some (.completed answer) → ∃ a, answer = some a ∧ a.hopByHopId = id

/-- What the infos, the calls for the id and the wait for it have to do with each other. -/
structure ValidAt (s : AnswerCalls) (id : UInt32) : Prop where
  agrees : ∀ info, s.infos id = some info → Agrees id info (s.waiting id)
  stored : ∀ call ∈ s.receiving, call.answer.hopByHopId = id → call.stage = .stored →
    ∀ info, s.infos id = some info → info.answer ≠ none
  completed : ∀ call ∈ s.receiving, call.answer.hopByHopId = id →
    ∀ origin, call.stage = .completed origin →
      ∀ info, s.infos id = some info → info.notify.Signalled ∨ Over (s.waiting id)
  found : s.infos id = none → ∀ w, s.waiting id = some w → w = .started ∨ w = .completed none

variable {s t : AnswerCalls} {id : UInt32} {k : Nat} {answer : Command} {info : SharedInfo}

@[simp] theorem waiting_waited {w : Waiting} : (s.waited id w).waiting id = some w :=
  Function.update_self ..

/-! ### What a step does -/

theorem step_getInfo (h : s.step (.getInfo k) = some t) :
    ∃ answer, s.receiving[k]? = some ⟨answer, .started⟩ ∧
      (s.infos answer.hopByHopId ≠ none ∧ t = s.received k answer .found ∨
        s.infos answer.hopByHopId = none ∧ t = s.received k answer (.completed none)) := by
  simp only [step] at h
  split at h
  next answer hcall =>
    refine ⟨answer, hcall, ?_⟩
    split at h
    next info hinfo => exact .inl ⟨by simp [hinfo], (Option.some.inj h).symm⟩
    next hnone => exact .inr ⟨hnone, (Option.some.inj h).symm⟩
  next => cases h

theorem step_setAnswer (h : s.step (.setAnswer k) = some t) :
    ∃ answer info, s.receiving[k]? = some ⟨answer, .found⟩ ∧
      s.infos answer.hopByHopId = some info ∧
      t = (s.setInfo answer.hopByHopId { info with answer := some answer }).received k answer
        .stored := by
  simp only [step] at h
  split at h
  next answer hcall =>
    obtain ⟨info, hinfo, rfl⟩ := Option.map_eq_some_iff.mp h
    exact ⟨answer, info, hcall, hinfo, rfl⟩
  next => cases h

theorem step_notifyOne (h : s.step (.notifyOne k) = some t) :
    ∃ answer info, s.receiving[k]? = some ⟨answer, .stored⟩ ∧
      s.infos answer.hopByHopId = some info ∧
      t = (s.setInfo answer.hopByHopId { info with notify := info.notify.notifyOne }).received k
        answer (.completed (some info.origin)) := by
  simp only [step] at h
  split at h
  next answer hcall =>
    obtain ⟨info, hinfo, rfl⟩ := Option.map_eq_some_iff.mp h
    exact ⟨answer, info, hcall, hinfo, rfl⟩
  next => cases h

theorem step_wait (h : s.step (.wait id) = some t) :
    s.waiting id = none ∧ t = s.waited id .started := by
  simp only [step] at h
  split at h
  next hw => exact ⟨hw, (Option.some.inj h).symm⟩
  next => cases h

theorem step_findInfo (h : s.step (.findInfo id) = some t) :
    s.waiting id = some .started ∧
      (s.infos id ≠ none ∧ t = s.waited id .found ∨
        s.infos id = none ∧ t = s.waited id (.completed none)) := by
  simp only [step] at h
  split at h
  next hw =>
    refine ⟨hw, ?_⟩
    split at h
    next info hinfo => exact .inl ⟨by simp [hinfo], (Option.some.inj h).symm⟩
    next hnone => exact .inr ⟨hnone, (Option.some.inj h).symm⟩
  next => cases h

theorem step_awaitNotified (h : s.step (.awaitNotified id) = some t) :
    ∃ info, s.waiting id = some .found ∧ s.infos id = some info ∧
      t = (s.setInfo id { info with notify := (info.notify.notified id).2 }).waited id
        (if (info.notify.notified id).1 then .notified else .registered) := by
  simp only [step] at h
  split at h
  next hw =>
    obtain ⟨info, hinfo, rfl⟩ := Option.map_eq_some_iff.mp h
    exact ⟨info, hw, hinfo, rfl⟩
  next => cases h

theorem step_resume (h : s.step (.resume id) = some t) :
    ∃ info notify, s.waiting id = some .registered ∧ s.infos id = some info ∧
      info.notify.resume id = some notify ∧
      t = (s.setInfo id { info with notify }).waited id .notified := by
  simp only [step] at h
  split at h
  next hw =>
    obtain ⟨info, hinfo, hmap⟩ := Option.bind_eq_some_iff.mp h
    obtain ⟨notify, hnotify, rfl⟩ := Option.map_eq_some_iff.mp hmap
    exact ⟨info, notify, hw, hinfo, hnotify, rfl⟩
  next => cases h

theorem step_readAnswer (h : s.step (.readAnswer id) = some t) :
    ∃ info, s.waiting id = some .notified ∧ s.infos id = some info ∧
      t = s.waited id (.completed info.answer) := by
  simp only [step] at h
  split at h
  next hw =>
    obtain ⟨info, hinfo, rfl⟩ := Option.map_eq_some_iff.mp h
    exact ⟨info, hw, hinfo, rfl⟩
  next => cases h

/-! ### Calls that nothing overlaps -/

/-- The manager's infos, each under its own id, and nobody waits. -/
structure Shows (s : AnswerCalls) (m : AnswerManager) : Prop where
  infos : ∀ id, s.infos id = (m.getAnswerInfo id).bind fun i => (m.infos[i]?).map SharedInfo.idle
  own : ∀ id id' i, m.getAnswerInfo id = some i → m.getAnswerInfo id' = some i → id = id'

/-- The steps of a call of `answer_received`. -/
def receivedSteps (s : AnswerCalls) (answer : Command) : List Step :=
  match s.infos answer.hopByHopId with
  | some _ => [.receive answer, .getInfo s.receiving.length, .setAnswer s.receiving.length,
      .notifyOne s.receiving.length]
  | none => [.receive answer, .getInfo s.receiving.length]

variable {m m' : AnswerManager} {i : Nat}

/-- Changing the info of an id changes what is shown of that id. -/
theorem Shows.modify (h : s.Shows m) (hinfo : m.getAnswerInfo id = some i) {f : AnswerInfo → AnswerInfo}
    (ht : t.infos = Function.update s.infos id ((m.infos[i]?).map fun info => .idle (f info))) :
    t.Shows { m with infos := m.infos.modify i f } where
  infos := by
    intro id'
    rw [ht]
    by_cases hid : id' = id
    · subst hid
      rw [Function.update_self]
      have hinfo' : AnswerManager.getAnswerInfo { m with infos := m.infos.modify i f } id' = some i :=
        hinfo
      simp [hinfo', List.getElem?_modify, Function.comp_def]
    · rw [Function.update_of_ne hid, h.infos id']
      show _ = (m.getAnswerInfo id').bind _
      cases hinfo' : m.getAnswerInfo id' with
      | none => rfl
      | some i' =>
        have hne : i ≠ i' := fun heq => hid (h.own id' id i (heq ▸ hinfo') hinfo)
        simp [List.getElem?_modify, hne, Function.comp_def]
  own := h.own

/-- A call of `answer_received` that nothing overlaps is the one of the manager. -/
theorem received_eq (h : s.Shows m) (answer : Command) :
    ∃ t, Transition.run step s (s.receivedSteps answer) = some t ∧
      t.receiving = s.receiving ++ [⟨answer, .completed (m.answerReceived answer).1⟩] ∧
      t.Shows (m.answerReceived answer).2 := by
  have hinfos := h.infos answer.hopByHopId
  unfold AnswerManager.answerReceived
  cases hinfo : m.getAnswerInfo answer.hopByHopId with
  | none =>
    have hnone : s.infos answer.hopByHopId = none := by simp [hinfos, hinfo]
    refine ⟨{ s with receiving := s.receiving ++ [⟨answer, .completed none⟩] }, ?_, rfl,
      h.infos, h.own⟩
    simp [receivedSteps, Transition.run, step, received, hnone]
  | some i =>
    cases hi : m.infos[i]? with
    | none =>
      have hnone : s.infos answer.hopByHopId = none := by simp [hinfos, hinfo, hi]
      refine ⟨{ s with receiving := s.receiving ++ [⟨answer, .completed none⟩] }, ?_, by simp [hi],
        h.modify hinfo ?_⟩
      · simp [receivedSteps, Transition.run, step, received, hnone]
      · rw [hi, Option.map_none, ← hnone, Function.update_eq_self]
    | some info =>
      have hsome : s.infos answer.hopByHopId = some (.idle info) := by simp [hinfos, hinfo, hi]
      refine ⟨{ s with
          infos := Function.update s.infos answer.hopByHopId
            (some (.idle { info with answer := some answer, notified := true }))
          receiving := s.receiving ++ [⟨answer, .completed (some info.origin)⟩] }, ?_,
        by simp [hi, AnswerInfo.origin], h.modify hinfo ?_⟩
      · simp [receivedSteps, Transition.run, step, received, setInfo, hsome, SharedInfo.idle,
          Notify.notifyOne, Notify.new, AnswerInfo.origin]
      · rw [hi, Option.map_some]

/-- And so is a call of `wait_answer` for an id that has been signalled. -/
theorem waited_eq {answer : Option Command} (h : s.Shows m) (hinfo : m.getAnswerInfo id = some i)
    (hw : s.waiting id = none) (hnotified : m.notified i = some (answer, m')) :
    ∃ t, Transition.run step s [.wait id, .findInfo id, .awaitNotified id, .readAnswer id] = some t ∧
      t.waiting id = some (.completed answer) ∧ t.Shows m' := by
  unfold AnswerManager.notified at hnotified
  cases hi : m.infos[i]? with
  | none => simp [hi] at hnotified
  | some info =>
    simp only [hi] at hnotified
    split at hnotified
    next hpermit =>
      obtain ⟨rfl, rfl⟩ := Prod.mk.inj (Option.some.inj hnotified)
      have hsome : s.infos id = some (.idle info) := by simp [h.infos id, hinfo, hi]
      refine ⟨{ s with
          infos := Function.update s.infos id (some (.idle { info with notified := false }))
          waiting := Function.update s.waiting id (some (.completed info.answer)) }, ?_,
        Function.update_self .., h.modify hinfo ?_⟩
      · simp [Transition.run, step, waited, setInfo, hw, hsome, SharedInfo.idle, Notify.notified,
          Notify.new, hpermit, AnswerInfo.origin]
      · rw [hi, Option.map_some]
    next => cases hnotified

/-! ### What the ids have to do with each other -/

/-- The call has not put its answer in yet. -/
def Early (call : Receiving) : Prop := call.stage = .started ∨ call.stage = .found

theorem ValidAt.congr (h : s.ValidAt id) (hinfos : t.infos id = s.infos id)
    (hwaiting : t.waiting id = s.waiting id)
    (hcalls : ∀ call ∈ t.receiving, call.answer.hopByHopId = id →
      call ∈ s.receiving ∨ Early call) : t.ValidAt id where
  agrees := by
    rw [hinfos, hwaiting]
    exact h.agrees
  stored := by
    intro call hcall hid hstage
    rw [hinfos]
    rcases hcalls call hcall hid with hbefore | hearly
    · exact h.stored call hbefore hid hstage
    · simp [Early, hstage] at hearly
  completed := by
    intro call hcall hid origin hstage
    rw [hinfos, hwaiting]
    rcases hcalls call hcall hid with hbefore | hearly
    · exact h.completed call hbefore hid origin hstage
    · simp [Early, hstage] at hearly
  found := by
    rw [hinfos, hwaiting]
    exact h.found

theorem mem_received {stage : Receiving.Stage} {call : Receiving}
    (h : call ∈ (s.received k answer stage).receiving) :
    call ∈ s.receiving ∨ call = ⟨answer, stage⟩ := List.mem_or_eq_of_mem_set h

/-- What a call does to its own info does not concern the other ids. -/
theorem ValidAt.received_of_ne {stage : Receiving.Stage} (h : s.ValidAt id)
    (hne : id ≠ answer.hopByHopId) : (s.received k answer stage).ValidAt id := by
  refine h.congr rfl rfl fun call hcall hid => ?_
  rcases mem_received hcall with hbefore | rfl
  · exact .inl hbefore
  · exact absurd hid.symm hne

theorem ValidAt.setInfo_of_ne {id' : UInt32} (h : s.ValidAt id) (hne : id ≠ id') :
    (s.setInfo id' info).ValidAt id :=
  h.congr (Function.update_of_ne hne _ _) rfl fun _ hcall _ => .inl hcall

theorem ValidAt.waited_of_ne {id' : UInt32} {w : Waiting} (h : s.ValidAt id) (hne : id ≠ id') :
    (s.waited id' w).ValidAt id :=
  h.congr rfl (Function.update_of_ne hne _ _) fun _ hcall _ => .inl hcall

/-- No wait is blocked behind a completed call. -/
theorem ValidAt.not_blocked (h : s.ValidAt id) {call : Receiving} (hcall : call ∈ s.receiving)
    (hid : call.answer.hopByHopId = id) {origin : Option (String × String × String)}
    (hstage : call.stage = .completed origin) : ¬s.Blocked id := by
  rintro ⟨⟨w, hw, hprogress⟩, hnone⟩
  simp only [List.forall_mem_cons, step, hw] at hnone
  obtain ⟨hfind, hawait, hresume, hread, -⟩ := hnone
  cases hinfo : s.infos id with
  | none =>
    rcases h.found hinfo w hw with rfl | rfl
    · simp [hinfo] at hfind
    · exact hprogress none rfl
  | some info =>
    cases w with
    | started => simp [hinfo] at hfind
    | found => simp [hinfo] at hawait
    | notified => simp [hinfo] at hread
    | completed answer => exact hprogress answer rfl
    | registered =>
      -- the call for the id has signalled, and the wait is not over
      have hsignal : info.notify.Signalled := by
        rcases h.completed call hcall hid origin hstage info hinfo with hsignal | hover | ⟨a, hover⟩
        · exact hsignal
        all_goals
          rw [hw] at hover
          cases hover
      rcases (h.agrees info hinfo).queue with ⟨hnot, -⟩ | ⟨-, ⟨hwaiting, hwoken⟩ | ⟨-, hwoken⟩⟩
      · exact hnot hw
      · -- the signal would have gone to the waiter
        rcases hsignal with hpermit | hsome
        · rw [info.notify.waiting_of_permit hpermit] at hwaiting
          cases hwaiting
        · exact hsome hwoken
      · simp [hinfo, Notify.resume, hwoken] at hresume

/-- An id with an info. -/
theorem validAt_some (hinfo : s.infos id = some info) (hagrees : Agrees id info (s.waiting id))
    (hstored : ∀ call ∈ s.receiving, call.answer.hopByHopId = id → call.stage = .stored →
      info.answer ≠ none)
    (hcompleted : ∀ call ∈ s.receiving, call.answer.hopByHopId = id →
      ∀ origin, call.stage = .completed origin → info.notify.Signalled ∨ Over (s.waiting id)) :
    s.ValidAt id where
  agrees := by
    intro info' hinfo'
    obtain rfl := Option.some.inj (hinfo.symm.trans hinfo')
    exact hagrees
  stored := by
    intro call hcall hid hstage info' hinfo'
    obtain rfl := Option.some.inj (hinfo.symm.trans hinfo')
    exact hstored call hcall hid hstage
  completed := by
    intro call hcall hid origin hstage info' hinfo'
    obtain rfl := Option.some.inj (hinfo.symm.trans hinfo')
    exact hcompleted call hcall hid origin hstage
  found := by
    intro hnone
    exact absurd (hinfo.symm.trans hnone) nofun

/-- An id nothing is known of. -/
theorem validAt_none (hnone : s.infos id = none)
    (hfound : ∀ w, s.waiting id = some w → w = .started ∨ w = .completed none) : s.ValidAt id where
  agrees := fun _ hinfo => absurd (hnone.symm.trans hinfo) nofun
  stored := fun _ _ _ _ _ hinfo => absurd (hnone.symm.trans hinfo) nofun
  completed := fun _ _ _ _ _ _ hinfo => absurd (hnone.symm.trans hinfo) nofun
  found := fun _ => hfound

/-! ### The steps of `answer_received` -/

theorem ValidAt.received_found (h : s.ValidAt answer.hopByHopId) :
    (s.received k answer .found).ValidAt answer.hopByHopId := by
  refine h.congr rfl rfl fun call hcall _ => ?_
  rcases mem_received hcall with hbefore | rfl
  · exact .inl hbefore
  · exact .inr (.inr rfl)

theorem ValidAt.setAnswer (h : s.ValidAt answer.hopByHopId)
    (hinfo : s.infos answer.hopByHopId = some info) :
    ((s.setInfo answer.hopByHopId { info with answer := some answer }).received k answer
      .stored).ValidAt answer.hopByHopId := by
  have hagrees := h.agrees info hinfo
  refine validAt_some (Function.update_self ..) ?_ (fun _ _ _ _ => nofun) ?_
  · exact
      { answer := fun a ha => Option.some.inj ha ▸ rfl
        signalled := fun _ => nofun
        queue := hagrees.queue
        result := hagrees.result }
  · intro call hcall hid origin hstage
    rcases mem_received hcall with hbefore | rfl
    · exact h.completed call hbefore hid origin hstage info hinfo
    · cases hstage

/-- The signal comes when the answer is in. -/
theorem ValidAt.notifyOne {origin : Option (String × String × String)}
    (h : s.ValidAt answer.hopByHopId) (hinfo : s.infos answer.hopByHopId = some info)
    (hcall : ⟨answer, .stored⟩ ∈ s.receiving) :
    ((s.setInfo answer.hopByHopId { info with notify := info.notify.notifyOne }).received k answer
      (.completed origin)).ValidAt answer.hopByHopId := by
  have hagrees := h.agrees info hinfo
  have hanswer : info.answer ≠ none := h.stored _ hcall rfl rfl info hinfo
  refine validAt_some (Function.update_self ..) ?_ (fun _ _ _ _ => hanswer)
    fun _ _ _ _ _ => .inl Notify.signalled_notifyOne
  refine ⟨hagrees.answer, fun _ => hanswer, ?_, hagrees.result⟩
  rcases hagrees.queue with ⟨hw, hwaiting, hwoken⟩ | ⟨hw, ⟨hwaiting, hwoken⟩ | ⟨hwaiting, hwoken⟩⟩
  · exact .inl ⟨hw, by simp [Notify.waiting_notifyOne, hwaiting],
      by rw [Notify.woken_notifyOne, hwaiting, hwoken]; rfl⟩
  · exact .inr ⟨hw, .inr ⟨by simp [Notify.waiting_notifyOne, hwaiting],
      by rw [Notify.woken_notifyOne, hwaiting, hwoken]; rfl⟩⟩
  · exact .inr ⟨hw, .inr ⟨by simp [Notify.waiting_notifyOne, hwaiting],
      by rw [Notify.woken_notifyOne, hwaiting, hwoken]; rfl⟩⟩

/-! ### The steps of `wait_answer` -/

/-- A wait that has not come to the signal goes on. -/
theorem ValidAt.waited_of_early {w : Waiting} (h : s.ValidAt id)
    (hbefore : s.waiting id = none ∨ s.waiting id = some .started)
    (hafter : w = .started ∨ w = .found)
    (hfound : s.infos id = none → w = .started ∨ w = .completed none) :
    (s.waited id w).ValidAt id := by
  cases hinfo : s.infos id with
  | none =>
    refine validAt_none hinfo fun w' hw' => ?_
    obtain rfl := Option.some.inj (waiting_waited.symm.trans hw')
    exact hfound hinfo
  | some info =>
    have hagrees := h.agrees info hinfo
    refine validAt_some hinfo ?_
      (fun call hcall hid hstage => h.stored call hcall hid hstage info hinfo)
      fun call hcall hid origin hstage => .inl ?_
    · rw [waiting_waited]
      refine ⟨hagrees.answer, fun hor => hagrees.signalled (.inl ?_), .inl ⟨?_, ?_⟩, ?_⟩
      · rcases hafter with rfl | rfl <;> simpa using hor
      · rcases hafter with rfl | rfl <;> nofun
      · rcases hagrees.queue with ⟨-, hqueue⟩ | ⟨hregistered, -⟩
        · exact hqueue
        · rcases hbefore with hb | hb <;> simp [hb] at hregistered
      · rcases hafter with rfl | rfl <;> nofun
    · rcases h.completed call hcall hid origin hstage info hinfo with hsignal | hover | ⟨a, hover⟩
      · exact hsignal
      all_goals rcases hbefore with hb | hb <;> simp [hb] at hover

/-- The permit is taken, or the wait is registered where no signal has come. -/
theorem ValidAt.awaitNotified (h : s.ValidAt id) (hinfo : s.infos id = some info)
    (hw : s.waiting id = some .found) :
    ((s.setInfo id { info with notify := (info.notify.notified id).2 }).waited id
      (if (info.notify.notified id).1 then .notified else .registered)).ValidAt id := by
  have hagrees := h.agrees info hinfo
  have hwoken : info.notify.woken = [] ∧ info.notify.waiting = [] := by
    rcases hagrees.queue with ⟨-, hwaiting, hwoken⟩ | ⟨hregistered, -⟩
    · exact ⟨hwoken, hwaiting⟩
    · rw [hw] at hregistered
      cases hregistered
  have hstored : ∀ call ∈ s.receiving, call.answer.hopByHopId = id → call.stage = .stored →
      info.answer ≠ none := fun call hcall hid hstage => h.stored call hcall hid hstage info hinfo
  rcases info.notify.notified_cases id with
    ⟨hover, hpermit, hwaiting', hwoken'⟩ | ⟨hover, hpermit, hpermit', hwaiting', hwoken'⟩
  · rw [hover, if_pos rfl]
    have hanswer : info.answer ≠ none := hagrees.signalled (.inl (.inl hpermit))
    refine validAt_some (Function.update_self ..) ?_ hstored
      fun _ _ _ _ _ => .inr (.inl waiting_waited)
    rw [waiting_waited]
    exact ⟨hagrees.answer, fun _ => hanswer,
      .inl ⟨by simp, hwaiting', by rw [hwoken', hwoken.1]⟩, by simp⟩
  · rw [hover, if_neg Bool.false_ne_true]
    have hsilent : ¬info.notify.Signalled := by simp [Notify.Signalled, hpermit, hwoken.1]
    have hsilent' : ¬(info.notify.notified id).2.Signalled := by
      simp [Notify.Signalled, hpermit', hwoken', hwoken.1]
    refine validAt_some (Function.update_self ..) ?_ hstored ?_
    · rw [waiting_waited]
      refine ⟨hagrees.answer, fun hor => ?_, .inr ⟨rfl, .inl ⟨?_, ?_⟩⟩, by simp⟩
      · rcases hor with hsignal | hnotified
        · exact absurd hsignal hsilent'
        · simp at hnotified
      · rw [hwaiting', hwoken.2]
        rfl
      · rw [hwoken', hwoken.1]
    · -- no call has completed, for its signal would be there
      intro call hcall hid origin hstage
      rcases h.completed call hcall hid origin hstage info hinfo with hsignal | hover | ⟨a, hover⟩
      · exact absurd hsignal hsilent
      all_goals
        rw [hw] at hover
        cases hover

theorem ValidAt.resume {notify : Notify UInt32} (h : s.ValidAt id) (hinfo : s.infos id = some info)
    (hw : s.waiting id = some .registered) (hnotify : info.notify.resume id = some notify) :
    ((s.setInfo id { info with notify }).waited id .notified).ValidAt id := by
  have hagrees := h.agrees info hinfo
  obtain ⟨hmem, rfl⟩ := Notify.resume_eq_some.mp hnotify
  have hanswer : info.answer ≠ none :=
    hagrees.signalled (.inl (.inr (List.ne_nil_of_mem hmem)))
  have hqueue : info.notify.waiting = [] ∧ info.notify.woken = [id] := by
    rcases hagrees.queue with ⟨hnot, -⟩ | ⟨-, ⟨-, hwoken⟩ | hqueue⟩
    · exact absurd hw hnot
    · rw [hwoken] at hmem
      cases hmem
    · exact hqueue
  refine validAt_some (Function.update_self ..) ?_
    (fun call hcall hid hstage => h.stored call hcall hid hstage info hinfo)
    fun _ _ _ _ _ => .inr (.inl waiting_waited)
  rw [waiting_waited]
  exact ⟨hagrees.answer, fun _ => hanswer, .inl ⟨nofun, hqueue.1, by simp [hqueue.2]⟩, nofun⟩

/-- The answer is in, for its signal has come. -/
theorem ValidAt.readAnswer (h : s.ValidAt id) (hinfo : s.infos id = some info)
    (hw : s.waiting id = some .notified) : (s.waited id (.completed info.answer)).ValidAt id := by
  have hagrees := h.agrees info hinfo
  refine validAt_some hinfo ?_
    (fun call hcall hid hstage => h.stored call hcall hid hstage info hinfo)
    fun _ _ _ _ _ => .inr (.inr ⟨info.answer, waiting_waited⟩)
  rw [waiting_waited]
  refine ⟨hagrees.answer, fun _ => hagrees.signalled (.inr hw), .inl ⟨nofun, ?_⟩, ?_⟩
  · rcases hagrees.queue with ⟨-, hqueue⟩ | ⟨hregistered, -⟩
    · exact hqueue
    · rw [hw] at hregistered
      cases hregistered
  · intro answer hanswer
    obtain rfl := Waiting.completed.inj (Option.some.inj hanswer)
    obtain ⟨a, ha⟩ := Option.ne_none_iff_exists'.mp (hagrees.signalled (.inr hw))
    exact ⟨a, ha, hagrees.answer a ha⟩

/-! ### Runs -/

theorem validAt_start (prepared : AList fun _ : UInt32 => String × String × String) (id : UInt32) :
    (start prepared).ValidAt id where
  agrees := by
    intro info hinfo
    obtain ⟨origin, -, rfl⟩ := Option.map_eq_some_iff.mp hinfo
    exact ⟨nofun, fun hor => absurd hor (by simp [start]), .inl ⟨nofun, rfl, rfl⟩, nofun⟩
  stored := nofun
  completed := nofun
  found := fun _ => nofun

theorem validAt_step {l : Step} (h : ∀ id, s.ValidAt id) (hstep : s.step l = some t) :
    ∀ id, t.ValidAt id := by
  intro id
  cases l with
  | receive answer =>
    obtain rfl := Option.some.inj hstep
    refine (h id).congr rfl rfl fun call hcall _ => ?_
    rcases List.mem_append.mp hcall with hbefore | hnew
    · exact .inl hbefore
    · obtain rfl := List.mem_singleton.mp hnew
      exact .inr (.inl rfl)
  | getInfo k =>
    obtain ⟨answer, -, hinfo | hnone⟩ := step_getInfo hstep
    · obtain ⟨-, rfl⟩ := hinfo
      by_cases hid : id = answer.hopByHopId
      · subst hid
        exact (h _).received_found
      · exact (h id).received_of_ne hid
    · obtain ⟨hnone, rfl⟩ := hnone
      by_cases hid : id = answer.hopByHopId
      · subst hid
        exact validAt_none hnone ((h _).found hnone)
      · exact (h id).received_of_ne hid
  | setAnswer k =>
    obtain ⟨answer, info, -, hinfo, rfl⟩ := step_setAnswer hstep
    by_cases hid : id = answer.hopByHopId
    · subst hid
      exact (h _).setAnswer hinfo
    · exact ((h id).setInfo_of_ne hid).received_of_ne hid
  | notifyOne k =>
    obtain ⟨answer, info, hcall, hinfo, rfl⟩ := step_notifyOne hstep
    by_cases hid : id = answer.hopByHopId
    · subst hid
      exact (h _).notifyOne hinfo (List.mem_of_getElem? hcall)
    · exact ((h id).setInfo_of_ne hid).received_of_ne hid
  | wait id' =>
    obtain ⟨hw, rfl⟩ := step_wait hstep
    by_cases hid : id = id'
    · subst hid
      exact (h id).waited_of_early (.inl hw) (.inl rfl) fun _ => .inl rfl
    · exact (h id).waited_of_ne hid
  | findInfo id' =>
    obtain ⟨hw, ⟨hinfo, rfl⟩ | ⟨hnone, rfl⟩⟩ := step_findInfo hstep
    · by_cases hid : id = id'
      · subst hid
        exact (h id).waited_of_early (.inr hw) (.inr rfl) fun hnone => absurd hnone hinfo
      · exact (h id).waited_of_ne hid
    · by_cases hid : id = id'
      · subst hid
        refine validAt_none hnone fun w hw' => .inr ?_
        exact Option.some.inj (hw'.symm.trans waiting_waited)
      · exact (h id).waited_of_ne hid
  | awaitNotified id' =>
    obtain ⟨info, hw, hinfo, rfl⟩ := step_awaitNotified hstep
    by_cases hid : id = id'
    · subst hid
      exact (h id).awaitNotified hinfo hw
    · exact ((h id).setInfo_of_ne hid).waited_of_ne hid
  | resume id' =>
    obtain ⟨info, notify, hw, hinfo, hnotify, rfl⟩ := step_resume hstep
    by_cases hid : id = id'
    · subst hid
      exact (h id).resume hinfo hw hnotify
    · exact ((h id).setInfo_of_ne hid).waited_of_ne hid
  | readAnswer id' =>
    obtain ⟨info, hw, hinfo, rfl⟩ := step_readAnswer hstep
    by_cases hid : id = id'
    · subst hid
      exact (h id).readAnswer hinfo hw
    · exact (h id).waited_of_ne hid

theorem noLostWakeup (h : ∀ id, s.ValidAt id) : s.NoLostWakeup where
  live := fun call hcall origin hstage => (h _).not_blocked hcall rfl hstage
  own := by
    intro id answer hsome hw
    obtain ⟨info, hinfo⟩ := Option.ne_none_iff_exists'.mp hsome
    exact ((h id).agrees info hinfo).result answer hw

/-- **No lost wake-up.** However the steps of the calls are interleaved, no wait for an answer
hangs once a call has brought one, and it completes with an answer under its id. -/
theorem no_lost_wakeup (prepared : AList fun _ : UInt32 => String × String × String)
    (ls : List Step) :
    Transition.Always step (fun _ _ t => t.NoLostWakeup) (start prepared) ls := by
  refine Transition.always_of_invariant (I := fun s => ∀ id, s.ValidAt id) ?_ ?_
    (validAt_start prepared)
  · intro s l t hs h
    exact validAt_step hs h
  · intro s l t hs h
    exact noLostWakeup (validAt_step hs h)

end AnswerCalls

end RestDiameterBridge
