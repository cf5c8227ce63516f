import RestDiameterBridge.Lib.Transition
import RestDiameterBridge.Transport.Course
import RestDiameterBridge.Transport.Matching

/-!
# RestDiameterBridge.Transport.AwaitedAnswers

How long an answer is expected, and how long it is waited for (`answer_manager.rs` and
`send_request` in `src/transport/connection_manager.rs`).

`prepare_for_answer` gives an entry 60 seconds, whatever the configuration; `send_request`
waits until its total timeout. An entry past its time is dropped by the clean-up that precedes
the entry of any other request. `matched_iff` says for which timeouts no answer is lost that way.
-/

namespace RestDiameterBridge

open Program Transition

/-! ### An entry of the answer manager -/

namespace AnswerManager

/-- The entry of an id: it leads to the info `own`, until it expires at least. -/
structure KeepsEntry (m : AnswerManager) (id : UInt32) (own : Nat)
    (origin : String × String × String) (timeout now : Nat) : Prop where
  info : ∃ i : AnswerInfo, m.infos[own]? = some i ∧ i.origin = origin ∧ i.timeout = timeout
  unique : ∀ info, m.getAnswerInfo id = some info → info = own
  found : now ≤ timeout → m.getAnswerInfo id = some own

variable {m m' : AnswerManager} {id newId : UInt32} {own now now' timeout : Nat}
  {origin : String × String × String} {connection host realm : String} {answer : Command}

theorem keepsEntry_insertInfo :
    (m.insertInfo timeout id connection host realm).KeepsEntry id m.infos.length
      (connection, host, realm) timeout now where
  info := ⟨_, getElem?_insertInfo_self, rfl, rfl⟩
  unique := fun _ hinfo => Option.some.inj (hinfo.symm.trans getAnswerInfo_insertInfo_self)
  found := fun _ => getAnswerInfo_insertInfo_self

theorem KeepsEntry.later (h : m.KeepsEntry id own origin timeout now) (hnow : now ≤ now') :
    m.KeepsEntry id own origin timeout now' :=
  ⟨h.info, h.unique, fun htime => h.found (hnow.trans htime)⟩

theorem KeepsEntry.cleanUpDue (h : m.KeepsEntry id own origin timeout now) :
    (m.cleanUpDue now').2.KeepsEntry id own origin timeout now := by
  obtain ⟨hinfo, hunique, hfound⟩ := h
  exact ⟨by rwa [infos_cleanUpDue], by rwa [getAnswerInfo, map_cleanUpDue],
    by rwa [getAnswerInfo, map_cleanUpDue]⟩

theorem KeepsEntry.dropExpired (h : m.KeepsEntry id own origin timeout now) :
    (m.dropExpired now).KeepsEntry id own origin timeout now := by
  obtain ⟨i, hi, horigin, htimeout⟩ := h.info
  refine ⟨⟨i, hi, horigin, htimeout⟩, fun info hinfo => ?_, fun hnow => ?_⟩
  · exact h.unique info (AList.lookup_of_lookup_retain hinfo)
  · exact lookup_dropExpired (h.found hnow) hi (htimeout ▸ hnow)

theorem KeepsEntry.insertInfo {timeout' : Nat} (h : m.KeepsEntry id own origin timeout now)
    (hne : id ≠ newId) :
    (m.insertInfo timeout' newId connection host realm).KeepsEntry id own origin timeout now := by
  obtain ⟨i, hi, horigin, htimeout⟩ := h.info
  refine ⟨⟨i, getElem?_insertInfo hi, horigin, htimeout⟩, fun info hinfo => ?_, fun hnow => ?_⟩
  · rw [getAnswerInfo_insertInfo_of_ne hne] at hinfo
    exact h.unique info hinfo
  · rw [getAnswerInfo_insertInfo_of_ne hne]
    exact h.found hnow

/-- Answers and notifications leave the entry as it is. -/
theorem KeepsEntry.sameEntries (h : m.KeepsEntry id own origin timeout now)
    (hsame : m.SameEntries m') : m'.KeepsEntry id own origin timeout now := by
  have hget : m'.getAnswerInfo id = m.getAnswerInfo id := by rw [getAnswerInfo, hsame.map]; rfl
  obtain ⟨i, hi, rfl, rfl⟩ := h.info
  obtain ⟨i', hi', horigin, htimeout⟩ := hsame.infos own i hi
  refine ⟨⟨i', hi', horigin, htimeout⟩, ?_, ?_⟩
  · rw [hget]
    exact h.unique
  · rw [hget]
    exact h.found

/-- An answer under the id reaches whoever waits for the entry. -/
def Delivers (m : AnswerManager) (own : Nat) (origin : String × String × String) (answer : Command) :
    Prop :=
  (m.answerReceived answer).1 = some origin ∧
    ∃ m', (m.answerReceived answer).2.notified own = some (some answer, m')

theorem KeepsEntry.delivers (h : m.KeepsEntry answer.hopByHopId own origin timeout now)
    (hnow : now ≤ timeout) : m.Delivers own origin answer := by
  obtain ⟨i, hi, horigin, -⟩ := h.info
  have hfound := h.found hnow
  unfold Delivers AnswerManager.answerReceived
  rw [hfound]
  refine ⟨?_, ?_⟩
  · simp only [hi, Option.map_some]
    exact congrArg some horigin
  · simp [AnswerManager.notified, hi]

/-- An entry past its time is dropped. -/
theorem KeepsEntry.dropped (h : m.KeepsEntry id own origin timeout now) (htime : timeout < now) :
    (m.dropExpired now).getAnswerInfo id = none := by
  obtain ⟨i, hi, -, htimeout⟩ := h.info
  cases hlookup : (m.dropExpired now).getAnswerInfo id with
  | none => rfl
  | some info =>
    obtain ⟨hbefore, hfresh⟩ := AList.lookup_retain_eq_some.mp hlookup
    -- what was kept would be the entry's own info, which has expired
    obtain rfl := h.unique info hbefore
    have hexpired : i.timeout < now := by omega
    simp [hi, hexpired] at hfresh

end AnswerManager

/-! ### A request that is sent -/

/-- A request, the timeouts under which it is sent, when the clock is read to prepare for its
answer and how much later `send_request` has its connections and reads it again. -/
structure AwaitedRequest where
  settings : SendSettings
  request : Command
  connectionId : String
  answerHost : String
  answerRealm : String
  preparedAt : Nat
  delay : Nat
  connections : List Connection

/-- How far the request has come. -/
inductive AwaitedRequest.Stage
  | idle
  | prepared
  /-- What is left of `send_request`. -/
  | sending (program : Proc (Except String Command))

/-- The request with the answer manager and the clock. -/
structure AnswerWait where
  now : Nat
  answers : AnswerManager
  /-- How many have been told to drop the expired entries, and have not yet. -/
  sweeps : Nat
  stage : AwaitedRequest.Stage

namespace AnswerWait

/-- A new stack. -/
def new : AnswerWait := { now := 0, answers := .new 0, sweeps := 0, stage := .idle }

/-- The reply to a call of `send_request`, with the answer manager after it. -/
def perform (s : AnswerWait) (answer : (c : Call) → c.Reply) :
    (c : Call) → Option (c.Reply × AnswerManager)
  | .getAnswerInfo id => some (s.answers.getAnswerInfo id, s.answers)
  | .notified deadline _ info =>
      match s.answers.notified info with
      | some (command, answers) => some (some command, answers)
      -- the wait ends without an answer at its deadline only
      | none => if deadline ≤ s.now then some (none, s.answers) else none
  | .now => some (s.now, s.answers)
  | .sendWithin deadline connection command =>
      match answer (.sendWithin deadline connection command) with
      | some sent => some (some sent, s.answers)
      | none => if deadline ≤ s.now then some (none, s.answers) else none
  | c => some (answer c, s.answers)

/-- What can happen meanwhile. -/
inductive Label
  | elapse (time : Nat)
  /-- Before the answer to this or another request is prepared for: is it time to clean up? -/
  | cleanUpDue (now : Nat)
  | dropExpired
  /-- The answer to another request is prepared for. -/
  | insertInfo (timeout : Nat) (id : UInt32) (connectionId answerHost answerRealm : String)
  | answerReceived (answer : Command)
  /-- The answer to the request itself is prepared for. -/
  | prepare
  /-- `send_request` computes its deadline. -/
  | begin
  /-- `send_request` makes its next call. -/
  | run (answer : (c : Call) → c.Reply)

end AnswerWait

namespace AwaitedRequest

open AnswerWait

/-- Where the answer goes. -/
def origin (r : AwaitedRequest) : String × String × String :=
  (r.connectionId, r.answerHost, r.answerRealm)

/-- The deadline of `send_request`. -/
def timeoutTime (r : AwaitedRequest) : Nat := r.preparedAt + r.delay + r.settings.totalTimeout

/-- `send_request` with its connections and its deadline. -/
def program (r : AwaitedRequest) : Proc (Except String Command) :=
  sendRequestVia r.settings r.request r.timeoutTime r.connections

def step (r : AwaitedRequest) (s : AnswerWait) : Label → Option AnswerWait
  | .elapse time => some { s with now := s.now + time }
  | .cleanUpDue now =>
      let (due, answers) := s.answers.cleanUpDue now
      if s.now < now then none
      else some { s with answers, sweeps := if due then s.sweeps + 1 else s.sweeps }
  | .dropExpired =>
      if s.sweeps = 0 then none
      else some { s with answers := s.answers.dropExpired s.now, sweeps := s.sweeps - 1 }
  | .insertInfo timeout id connectionId answerHost answerRealm =>
      if id = r.request.hopByHopId then none
      else some { s with
        answers := s.answers.insertInfo timeout id connectionId answerHost answerRealm }
  | .answerReceived answer => some { s with answers := (s.answers.answerReceived answer).2 }
  | .prepare =>
      match s.stage with
      | .idle =>
          if r.preparedAt ≤ s.now then
            some { s with
              answers := s.answers.insertInfo (r.preparedAt + 60000) r.request.hopByHopId
                r.connectionId r.answerHost r.answerRealm
              stage := .prepared }
          else none
      | _ => none
  | .begin =>
      match s.stage with
      | .prepared =>
          if s.now = r.preparedAt + r.delay then some { s with stage := .sending r.program } else none
      | _ => none
  | .run answer =>
      match s.stage with
      | .sending (.call c next) =>
          (s.perform answer c).map fun (reply, answers) =>
            { s with answers, stage := .sending (next reply) }
      | _ => none

/-- `send_request` has not returned, and its deadline has not passed. -/
def Awaits (r : AwaitedRequest) (s : AnswerWait) : Prop :=
  (∃ c next, s.stage = .sending (.call c next)) ∧ s.now ≤ r.timeoutTime

/-- The program waits for the notification of no other info. -/
def WaitsFor (own : Nat) (s : AnswerWait) : Prop :=
  ∀ deadline id info next, s.stage = .sending (.call (.notified deadline id info) next) → info = own

/-- An answer to the request would be matched now, and reach the waiter. -/
def Matched (r : AwaitedRequest) (s : AnswerWait) : Prop :=
  r.Awaits s → ∃ own, s.answers.getAnswerInfo r.request.hopByHopId = some own ∧ WaitsFor own s ∧
    ∀ answer : Command, answer.hopByHopId = r.request.hopByHopId →
      s.answers.Delivers own r.origin answer

variable {r : AwaitedRequest} {s t : AnswerWait} {l : Label}

/-- These are the first calls of `send_request`. -/
theorem sendRequest_eq (settings : SendSettings) (request : Command) :
    sendRequest settings request = .call (.getConnectionsForRequest request) fun
      | .ok connections => .call .now fun now =>
          sendRequestVia settings request (now + settings.totalTimeout) connections
      | .error e => .ret (.error e) := rfl

/-! ### In time -/

/-- Wherever the command came from. -/
def context (r : AwaitedRequest) : CommandProcessorContext :=
  { connectionId := r.connectionId, myHost := "", myRealm := "", peerHost := r.answerHost
    peerRealm := r.answerRealm }

/-- The program sends the request, and the info it has found is `own`. -/
def Asks (r : AwaitedRequest) (own : Nat) (program : Proc (Except String Command)) : Prop :=
  ∃ info answered, Sends r.context r.request none info answered (fun result => ∃ a, result = .ok a)
    program ∧ ∀ i, info = some i → i = own

/-- The entry of the request is there, and its program waits for nothing else. -/
structure Tracks (r : AwaitedRequest) (own : Nat) (s : AnswerWait) : Prop where
  prepared : s.stage ≠ .idle
  now : r.preparedAt ≤ s.now
  entry : s.answers.KeepsEntry r.request.hopByHopId own r.origin (r.preparedAt + 60000) s.now
  asks : ∀ program, s.stage = .sending program → r.Asks own program

theorem asks_program {own : Nat} : r.Asks own r.program :=
  ⟨none, false, sendRequestVia_sends r.connections, fun _ h => nomatch h⟩

theorem perform_answers {answer : (c : Call) → c.Reply} {c : Call} {reply : c.Reply}
    {answers : AnswerManager} (h : s.perform answer c = some (reply, answers)) :
    answers = s.answers ∨ ∃ info found, s.answers.notified info = some (found, answers) := by
  unfold AnswerWait.perform at h
  split at h
  case h_2 deadline id info =>
    split at h
    next command answers' hnotified =>
      obtain ⟨-, rfl⟩ := Prod.mk.inj (Option.some.inj h)
      exact .inr ⟨info, command, hnotified⟩
    · split at h
      · exact .inl (Prod.mk.inj (Option.some.inj h)).2.symm
      · cases h
  case h_4 =>
    split at h
    · exact .inl (Prod.mk.inj (Option.some.inj h)).2.symm
    · split at h
      · exact .inl (Prod.mk.inj (Option.some.inj h)).2.symm
      · cases h
  all_goals exact .inl (Prod.mk.inj (Option.some.inj h)).2.symm

/-- A call of the program: it finds no info but its own. -/
theorem Asks.next {own : Nat} {answer : (c : Call) → c.Reply} {c : Call} {reply : c.Reply}
    {answers : AnswerManager} {next : c.Reply → Proc (Except String Command)}
    (h : r.Asks own (.call c next))
    (hown : ∀ info, s.answers.getAnswerInfo r.request.hopByHopId = some info → info = own)
    (hreply : s.perform answer c = some (reply, answers)) : r.Asks own (next reply) := by
  obtain ⟨info, answered, hsends, hinfo⟩ := h
  obtain ⟨p, hcourse, hnext⟩ := hsends reply
  cases hcourse with
  | route _ => exact ⟨info, answered, hnext, hinfo⟩
  | attempt => exact ⟨info, answered, hnext, hinfo⟩
  | findInfo =>
    obtain ⟨rfl, -⟩ := Prod.mk.inj (Option.some.inj hreply)
    exact ⟨_, answered, hnext, hown⟩
  | wait => exact ⟨_, _, hnext, hinfo⟩

theorem Tracks.waitsFor {own : Nat} (h : r.Tracks own s) : WaitsFor own s := by
  intro deadline id info next hstage
  obtain ⟨found, answered, hsends, hfound⟩ := h.asks _ hstage
  obtain ⟨p, hcourse, -⟩ := hsends none
  cases hcourse with
  | route hc => exact hc.elim
  | wait => exact hfound info rfl

/-- The entry outlives every wait that ends within its 60 seconds. -/
theorem Tracks.matched {own : Nat} (h : r.Tracks own s)
    (htime : r.delay + r.settings.totalTimeout ≤ 60000) : r.Matched s := by
  intro hawaits
  have hnow : s.now ≤ r.preparedAt + 60000 := by
    have := hawaits.2
    rw [timeoutTime] at this
    omega
  refine ⟨own, h.entry.found hnow, h.waitsFor, fun answer hid => ?_⟩
  exact (hid ▸ h.entry : s.answers.KeepsEntry answer.hopByHopId own r.origin _ s.now).delivers hnow

/-- Nothing has been prepared for yet, or the entry is there. -/
def Valid (r : AwaitedRequest) (s : AnswerWait) : Prop := s.stage = .idle ∨ ∃ own, r.Tracks own s

theorem Tracks.step {own : Nat} (hs : r.Tracks own s) (h : r.step s l = some t) : r.Tracks own t := by
  cases l with
  | elapse time =>
    obtain rfl := Option.some.inj h
    have hlater : s.now ≤ s.now + time := Nat.le_add_right _ _
    exact ⟨hs.prepared, hs.now.trans hlater, hs.entry.later hlater, hs.asks⟩
  | cleanUpDue now =>
    simp only [AwaitedRequest.step, Option.ite_none_left_eq_some, Option.some.injEq] at h
    obtain ⟨-, rfl⟩ := h
    exact ⟨hs.prepared, hs.now, hs.entry.cleanUpDue, hs.asks⟩
  | dropExpired =>
    simp only [AwaitedRequest.step, Option.ite_none_left_eq_some, Option.some.injEq] at h
    obtain ⟨-, rfl⟩ := h
    exact ⟨hs.prepared, hs.now, hs.entry.dropExpired, hs.asks⟩
  | insertInfo timeout id connectionId answerHost answerRealm =>
    simp only [AwaitedRequest.step, Option.ite_none_left_eq_some, Option.some.injEq] at h
    obtain ⟨hid, rfl⟩ := h
    exact ⟨hs.prepared, hs.now, hs.entry.insertInfo (Ne.symm hid), hs.asks⟩
  | answerReceived answer =>
    obtain rfl := Option.some.inj h
    exact ⟨hs.prepared, hs.now, hs.entry.sameEntries AnswerManager.sameEntries_answerReceived, hs.asks⟩
  | prepare =>
    simp only [AwaitedRequest.step] at h
    split at h
    next hidle => exact absurd hidle hs.prepared
    · cases h
  | begin =>
    simp only [AwaitedRequest.step] at h
    split at h
    · simp only [Option.ite_none_right_eq_some, Option.some.injEq] at h
      obtain ⟨-, rfl⟩ := h
      refine ⟨nofun, hs.now, hs.entry, fun program hprogram => ?_⟩
      obtain rfl := Stage.sending.inj hprogram
      exact asks_program
    · cases h
  | run answer =>
    simp only [AwaitedRequest.step] at h
    split at h
    next c next hstage =>
      obtain ⟨⟨reply, answers⟩, hreply, rfl⟩ := Option.map_eq_some_iff.mp h
      have hentry : answers.KeepsEntry r.request.hopByHopId own r.origin (r.preparedAt + 60000)
          s.now := by
        rcases perform_answers hreply with rfl | ⟨info, found, hnotified⟩
        · exact hs.entry
        · exact hs.entry.sameEntries (AnswerManager.sameEntries_notified hnotified)
      refine ⟨nofun, hs.now, hentry, fun program hprogram => ?_⟩
      obtain rfl := Stage.sending.inj hprogram
      exact (hs.asks _ hstage).next hs.entry.unique hreply
    · cases h

theorem Valid.step (hs : r.Valid s) (h : r.step s l = some t) : r.Valid t := by
  rcases hs with hidle | ⟨own, hs⟩
  · cases l with
    | elapse time | answerReceived answer =>
      obtain rfl := Option.some.inj h
      exact .inl hidle
    | cleanUpDue | dropExpired | insertInfo =>
      simp only [AwaitedRequest.step, Option.ite_none_left_eq_some, Option.some.injEq] at h
      obtain ⟨-, rfl⟩ := h
      exact .inl hidle
    | prepare =>
      simp only [AwaitedRequest.step, hidle, Option.ite_none_right_eq_some, Option.some.injEq] at h
      obtain ⟨hnow, rfl⟩ := h
      exact .inr ⟨s.answers.infos.length, nofun, hnow, AnswerManager.keepsEntry_insertInfo, nofun⟩
    | begin | run answer => simp [AwaitedRequest.step, hidle] at h
  · exact .inr ⟨own, hs.step h⟩

theorem Valid.matched (hs : r.Valid s) (htime : r.delay + r.settings.totalTimeout ≤ 60000) :
    r.Matched s := by
  rcases hs with hidle | ⟨own, hs⟩
  · intro hawaits
    obtain ⟨c, next, hstage⟩ := hawaits.1
    rw [hidle] at hstage
    cases hstage
  · exact hs.matched htime

/-- Without connections `send_request` returns at once. -/
theorem returned_step (hnone : r.connections = []) (hs : ∀ c next, s.stage ≠ .sending (.call c next))
    (h : r.step s l = some t) : ∀ c next, t.stage ≠ .sending (.call c next) := by
  cases l with
  | elapse time | answerReceived answer =>
    obtain rfl := Option.some.inj h
    exact hs
  | cleanUpDue | dropExpired | insertInfo =>
    simp only [AwaitedRequest.step, Option.ite_none_left_eq_some, Option.some.injEq] at h
    obtain ⟨-, rfl⟩ := h
    exact hs
  | prepare | begin =>
    simp only [AwaitedRequest.step] at h
    split at h
    · simp only [Option.ite_none_right_eq_some, Option.some.injEq] at h
      obtain ⟨-, rfl⟩ := h
      simp [program, hnone, sendRequestVia, pure]
    · cases h
  | run answer =>
    simp only [AwaitedRequest.step] at h
    cases h

/-! ### Too late -/

/-- Nothing else happens until the entry has expired or `send_request` has started, whatever is
later. Then somebody asks whether it is time to clean up. -/
def lateSchedule (r : AwaitedRequest) : List Label :=
  [.elapse r.preparedAt, .prepare, .elapse r.delay, .begin, .elapse (60001 - r.delay),
    .cleanUpDue (r.preparedAt + r.delay + (60001 - r.delay))]

/-- The state after that: it is, for no clean-up has been before. -/
def lateState (r : AwaitedRequest) : AnswerWait where
  now := r.preparedAt + r.delay + (60001 - r.delay)
  answers := { (AnswerManager.new 0).insertInfo (r.preparedAt + 60000) r.request.hopByHopId
    r.connectionId r.answerHost r.answerRealm with
      nextCleanupTime := r.preparedAt + r.delay + (60001 - r.delay) + 30000 }
  sweeps := 1
  stage := .sending r.program

theorem run_lateSchedule (r : AwaitedRequest) : run r.step .new r.lateSchedule = some r.lateState := by
  have hdue : ¬r.preparedAt + r.delay + (60001 - r.delay) < 30000 := by omega
  simp [lateSchedule, run, step, AnswerWait.new, lateState, AnswerManager.cleanUpDue,
    AnswerManager.insertInfo, AnswerManager.new, hdue]

/-- The entry is dropped while it is still waited for. -/
theorem not_matched_late (hlate : 60000 < r.delay + r.settings.totalTimeout)
    (hsome : r.connections ≠ []) :
    ∃ t, r.step r.lateState .dropExpired = some t ∧ ¬r.Matched t := by
  have hstep : r.step r.lateState .dropExpired = some { r.lateState with
      answers := r.lateState.answers.dropExpired r.lateState.now, sweeps := 0 } := by
    simp [step, lateState]
  refine ⟨_, hstep, fun hmatched => ?_⟩
  have hprogram : ∃ c next, r.program = .call c next := by
    cases hconnections : r.connections with
    | nil => exact absurd hconnections hsome
    | cons conn conns =>
      rw [program, hconnections]
      exact ⟨_, _, rfl⟩
  obtain ⟨c, next, hcall⟩ := hprogram
  obtain ⟨own, hfound, -⟩ := hmatched ⟨⟨c, next, congrArg Stage.sending hcall⟩, by
    show r.preparedAt + r.delay + (60001 - r.delay) ≤ _
    rw [timeoutTime]
    omega⟩
  have hnow : r.preparedAt + 60000 < r.lateState.now := by
    show _ < r.preparedAt + r.delay + (60001 - r.delay)
    omega
  have hentry : r.lateState.answers.KeepsEntry r.request.hopByHopId 0 r.origin
      (r.preparedAt + 60000) r.lateState.now := by
    have hinserted : ((AnswerManager.new 0).insertInfo (r.preparedAt + 60000) r.request.hopByHopId
        r.connectionId r.answerHost r.answerRealm).KeepsEntry r.request.hopByHopId 0 r.origin
          (r.preparedAt + 60000) r.lateState.now := AnswerManager.keepsEntry_insertInfo
    exact hinserted.sameEntries ⟨rfl, fun _ i hi => ⟨i, hi, rfl, rfl⟩⟩
  rw [hentry.dropped hnow] at hfound
  cases hfound

/-- **Which timeouts lose no answer.** Whatever happens meanwhile, an answer that comes before
the deadline of `send_request` is matched and reaches the waiter: exactly if this deadline is
no later than 60 seconds after the answer was prepared for, or there is no connection to send
the request on. The timeout of a connection makes no difference: time may pass between any two
calls, so the wait on one can begin right before the deadline. -/
theorem matched_iff (r : AwaitedRequest) :
    (∀ ls, Always r.step (fun _ _ t => r.Matched t) .new ls) ↔
      r.delay + r.settings.totalTimeout ≤ 60000 ∨ r.connections = [] := by
  constructor
  · intro h
    by_contra hlate
    obtain ⟨htime, hsome⟩ := not_or.mp hlate
    obtain ⟨t, hstep, hnot⟩ := not_matched_late (Nat.lt_of_not_le htime) hsome
    exact hnot ((h _).last r.run_lateSchedule hstep)
  · rintro (htime | hnone) ls
    · refine always_of_invariant (I := r.Valid) ?_ ?_ (.inl rfl)
      · intro s l t hs h
        exact hs.step h
      · intro s l t hs h
        exact (hs.step h).matched htime
    · refine always_of_invariant (I := fun s => ∀ c next, s.stage ≠ .sending (.call c next)) ?_ ?_
        nofun
      · intro s l t hs h
        exact returned_step hnone hs h
      · intro s l t hs h hawaits
        obtain ⟨c, next, hstage⟩ := hawaits.1
        exact absurd hstage (returned_step hnone hs h c next)

/-- Both timeouts are 90 seconds, and the request is sent at once. -/
def patient : AwaitedRequest where
  settings := { perConnTimeout := 90000, totalTimeout := 90000, retryableResultCodes := [] }
  request :=
    { code := 272, flags := 0xC0, applicationId := 4, hopByHopId := 1, endToEndId := 1, avps := [] }
  connectionId := "10.0.0.1:4001"
  answerHost := "client"
  answerRealm := "home.org"
  preparedAt := 0
  delay := 0
  connections := [.leaf ⟨0, "10.0.0.2:3868", "server", "far.org"⟩]

/-- Sending succeeds. -/
def sent : (c : Call) → c.Reply
  | .sendWithin .. => some (.ok ())
  | _ => default

/-- The request is sent and its answer waited for; after a good minute it is time to clean up, for
another request. -/
def slowAnswer : List Label :=
  [.prepare, .begin, .run sent, .run sent, .run sent, .run sent, .elapse 60001, .cleanUpDue 60001]

/-- `send_request` waits for the notification, until the deadline. -/
def waitsUntil (deadline : Nat) (s : AnswerWait) : Bool :=
  match s.stage with
  | .sending (.call (.notified until' _ _) _) => until' == deadline
  | _ => false

theorem calls_of_waitsUntil {deadline : Nat} (h : waitsUntil deadline s = true) :
    ∃ c next, s.stage = .sending (.call c next) := by
  unfold waitsUntil at h
  split at h
  · rename_i hstage
    exact ⟨_, _, hstage⟩
  · cases h

/-- The entry is gone though the answer is waited for until the 90th second. -/
theorem not_matched_slowAnswer :
    ¬∀ (r : AwaitedRequest) (ls : List Label), Always r.step (fun _ _ t => r.Matched t) .new ls := by
  intro h
  have hview : (run patient.step .new slowAnswer).any (fun t =>
      (patient.step t .dropExpired).any fun u => waitsUntil 90000 u && u.now == 60001 &&
        u.answers.getAnswerInfo 1 == none) = true := by
    decide
  obtain ⟨t, hrun, hlast⟩ := (Option.any_eq_true _ _).mp hview
  obtain ⟨u, hstep, hshows⟩ := (Option.any_eq_true _ _).mp hlast
  simp only [Bool.and_eq_true, beq_iff_eq] at hshows
  obtain ⟨⟨hwaits, hnow⟩, hgone⟩ := hshows
  have hmatched : patient.Matched u := (h patient _).last hrun hstep
  obtain ⟨own, hfound, -⟩ := hmatched ⟨calls_of_waitsUntil hwaits, by rw [hnow]; decide⟩
  exact absurd (hgone.symm.trans hfound) nofun

end AwaitedRequest

end RestDiameterBridge
