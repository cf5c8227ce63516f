import RestDiameterBridge.Transport.SendRequest

/-!
# RestDiameterBridge.Transport.RequestBudget

`send_request` against the clock.

`Candidates` says what the candidate connections are, and how each attempt goes and how
long it takes if it is left to end. `Candidates.handle` replies to the calls of
`sendRequest` accordingly: its timeouts fire exactly when due, and it writes down which
connection is attempted when. Code between two calls takes no time.

From the outcomes alone `startTime` says when it is the turn of a candidate that no
earlier one has spared, and `Settles` which candidate's answer the request ends with.
`sendRequest_keepsBudget` says that `sendRequest` does just that, and keeps to both
time limits.
-/

namespace RestDiameterBridge

open Program

/-- An attempt on a candidate, if no timeout cuts it short: the `send`, the look-up of the
answer info, and the answer that the wait on it yields. -/
structure AttemptOutcome where
  sendTime : Nat
  sent : Except String Unit
  info : Option Nat
  waitTime : Nat
  answer : Option Command

namespace AttemptOutcome

/-- How long the answer is waited for. -/
def waited (o : AttemptOutcome) : Nat := if o.info.isSome then o.waitTime else 0

/-- What the wait yields. -/
def found (o : AttemptOutcome) : Option Command := if o.info.isSome then o.answer else none

/-- How long the attempt takes. Only a request that was sent is waited for. -/
def duration (o : AttemptOutcome) : Nat :=
  match o.sent with
  | .ok () => o.sendTime + o.waited
  | .error _ => o.sendTime

/-- The answer that the attempt ends with. -/
def answered (o : AttemptOutcome) : Option Command :=
  match o.sent with
  | .ok () => o.found
  | .error _ => none

variable {o : AttemptOutcome}

theorem duration_ok (h : o.sent = .ok ()) : o.duration = o.sendTime + o.waited := by
  rw [duration, h]

theorem duration_error {e : String} (h : o.sent = .error e) : o.duration = o.sendTime := by
  rw [duration, h]

theorem sendTime_le_duration : o.sendTime ≤ o.duration := by
  cases h : o.sent with
  | ok _ =>
    rw [duration_ok h]
    exact Nat.le_add_right _ _
  | error e => rw [duration_error h]

end AttemptOutcome

/-- The time, and the connections attempted so far, each with the time of the attempt. -/
structure SendClock where
  now : Nat
  attempts : List (Connection × Nat)

namespace SendClock

/-- Do something that takes `time`, under a `timeout` with the given deadline. -/
def within {α : Type} (s : SendClock) (deadline time : Nat) (result : α) : Option α × SendClock :=
  if s.now + time ≤ deadline then (some result, { s with now := s.now + time })
  else (none, { s with now := max s.now deadline })

theorem within_of_le {α : Type} {s : SendClock} {deadline time : Nat} {result : α}
    (h : s.now + time ≤ deadline) :
    s.within deadline time result = (some result, { s with now := s.now + time }) := if_pos h

theorem within_of_lt {α : Type} {s : SendClock} {deadline time : Nat} {result : α}
    (hnow : s.now ≤ deadline) (h : deadline < s.now + time) :
    s.within deadline time result = (none, { s with now := deadline }) := by
  rw [within, if_neg (by omega), Nat.max_eq_right hnow]

/-- One thing after another, under one deadline. -/
theorem within_add {α : Type} {s : SendClock} {deadline time time' : Nat} {result : α}
    (h : s.now + time ≤ deadline) : s.within deadline (time + time') result =
      { s with now := s.now + time }.within deadline time' result := by
  simp only [within, Nat.add_assoc, Nat.max_eq_right h,
    Nat.max_eq_right (Nat.le_trans (Nat.le_add_right _ _) h)]

/-- An attempt on the connection starts. -/
def start (s : SendClock) (connection : Connection) : SendClock :=
  { s with attempts := s.attempts ++ [(connection, s.now)] }

end SendClock

/-- The candidates of a request, how long it takes to find them, and how the attempts on
them go, in turn. -/
structure Candidates where
  connections : List Connection
  lookupTime : Nat
  outcome : Nat → AttemptOutcome

namespace Candidates

/-- The replies to the calls of `sendRequest`, short of a redirect. -/
def handle (cs : Candidates) (s : SendClock) : (c : Call) → c.Reply × SendClock
  | .now => (s.now, s)
  | .getConnectionsForRequest _ =>
      (.ok cs.connections, { s with now := s.now + cs.lookupTime })
  | .sendWithin deadline connection _ =>
      let o := cs.outcome s.attempts.length
      (s.start connection).within deadline o.sendTime o.sent
  | .getAnswerInfo _ => ((cs.outcome (s.attempts.length - 1)).info, s)
  | .notified deadline _ _ =>
      let o := cs.outcome (s.attempts.length - 1)
      s.within deadline o.waitTime o.answer
  | _ => (default, s)

/-! ### What the outcomes say -/

section
variable (cs : Candidates) (settings : SendSettings) (taken : Nat)

/-- The time an attempt has that starts at `start`: the smaller one of the timeout of the
connection and what remains of the total one, counted from when the candidates were
taken. -/
def limit (start : Nat) : Nat :=
  min settings.perConnTimeout (taken + settings.totalTimeout - start)

/-- How long the attempt on a candidate lasts that starts at `start`. -/
def spent (i start : Nat) : Nat := min (cs.outcome i).duration (limit settings taken start)

/-- When it is the turn of a candidate. -/
def startTime : Nat → Nat
  | 0 => taken
  | i + 1 => startTime i + cs.spent settings taken i (startTime i)

/-- The candidate answers before its time is over, and with no retryable result code. -/
structure Accepts (i : Nat) (answer : Command) : Prop where
  candidate : i < cs.connections.length
  started : cs.startTime settings taken i < taken + settings.totalTimeout
  answered : (cs.outcome i).answered = some answer
  inTime : (cs.outcome i).duration ≤ limit settings taken (cs.startTime settings taken i)
  final : settings.retryableResultCodes.contains
    (answer.getResultCode.getD ResultCode.diameterSuccess.asU32) = false

/-- It is the first one that does. -/
def Settles (i : Nat) (answer : Command) : Prop :=
  cs.Accepts settings taken i answer ∧ ∀ j < i, ∀ b, ¬ cs.Accepts settings taken j b

/-- The answer that the request ends with is no redirect. -/
def MeetsNoRedirect : Prop :=
  ∀ i answer, cs.Settles settings taken i answer →
    answer.getResultCode.getD ResultCode.diameterSuccess.asU32 ≠
      ResultCode.diameterRedirectIndication.asU32

/-- A result of `sendRequest`, the time it comes at, and the attempts made for it, as the
outcomes demand. -/
structure KeepsBudget (result : Except String Command × SendClock) : Prop where
  /-- Candidates are attempted in order, each at most once. -/
  inOrder : result.2.attempts.map Prod.fst <+: cs.connections
  /-- No attempt starts once the total timeout has elapsed. -/
  started : ∀ i connection start, result.2.attempts[i]? = some (connection, start) →
    start = cs.startTime settings taken i ∧ start < taken + settings.totalTimeout
  returned : result.2.now ≤ taken + settings.totalTimeout
  ok_iff : ∀ answer, result.1 = .ok answer ↔ ∃ i, cs.Settles settings taken i answer
  /-- No candidate is attempted behind the one that settles the request. -/
  last : ∀ i answer, cs.Settles settings taken i answer → result.2.attempts.length = i + 1

end

/-! ### One attempt -/

section
variable {cs : Candidates} {settings : SendSettings} {taken : Nat} {request : Command}
  {conn : Connection} {s : SendClock}

theorem runWith_waitAnswer {deadline : Nat} {hopByHopId : UInt32} {o : AttemptOutcome}
    (ho : cs.outcome (s.attempts.length - 1) = o) (hnow : s.now ≤ deadline) :
    (waitAnswer deadline hopByHopId).runWith cs.handle s = s.within deadline o.waited o.found := by
  have hinfo : (await (.getAnswerInfo hopByHopId)).runWith cs.handle s = (o.info, s) := by
    subst ho
    rfl
  unfold waitAnswer
  rw [runWith_bind, hinfo]
  unfold AttemptOutcome.waited AttemptOutcome.found
  cases o.info with
  | none =>
    have hnow' : s.now + 0 ≤ deadline := hnow
    exact (SendClock.within_of_le hnow').symm
  | some info =>
    subst ho
    rfl

/-- What `sendRequestCommand` does once the request is sent. -/
theorem exists_runWith_waitAnswer {deadline : Nat} {hopByHopId : UInt32} {o : AttemptOutcome}
    (ho : cs.outcome (s.attempts.length - 1) = o) (hnow : s.now ≤ deadline) (e : String) :
    ∃ result : Except String Command, Program.runWith cs.handle (do
        match ← waitAnswer deadline hopByHopId with
        | some (some answer) => return some (.ok answer)
        | some none => return some (.error e)
        | none => return none) s = s.within deadline o.waited result ∧
      ∀ answer, result = .ok answer ↔ o.found = some answer := by
  rw [runWith_bind, runWith_waitAnswer ho hnow]
  rcases Nat.lt_or_ge deadline (s.now + o.waited) with hlate | hin
  · refine ⟨o.found.elim (.error e) .ok, ?_, ?_⟩
    · rw [SendClock.within_of_lt hnow hlate, SendClock.within_of_lt hnow hlate]
      rfl
    · cases o.found <;> simp
  · rw [SendClock.within_of_le hin]
    cases o.found with
    | none => exact ⟨.error e, (SendClock.within_of_le hin).symm, by simp⟩
    | some answer => exact ⟨.ok answer, (SendClock.within_of_le hin).symm, by simp⟩

/-- Sending and waiting under one deadline is one thing done under it. -/
theorem runWith_sendRequestCommand (request : Command) (conn : Connection) {deadline : Nat}
    {o : AttemptOutcome} (ho : cs.outcome s.attempts.length = o) (hnow : s.now ≤ deadline) :
    ∃ result, (sendRequestCommand deadline request conn).runWith cs.handle s =
        (s.start conn).within deadline o.duration result ∧
      ∀ answer, result = .ok answer ↔ o.answered = some answer := by
  have hsend : (await (.sendWithin deadline conn request)).runWith cs.handle s =
      (s.start conn).within deadline o.sendTime o.sent := by
    subst ho
    rfl
  have hlast : cs.outcome ((s.start conn).attempts.length - 1) = o := by
    rw [← ho]
    simp [SendClock.start]
  have hstart : (s.start conn).now ≤ deadline := hnow
  unfold sendRequestCommand
  rw [runWith_bind, hsend]
  generalize s.start conn = t at hlast hstart ⊢
  rcases Nat.lt_or_ge deadline (t.now + o.sendTime) with hlate | hsent
  · -- the timeout fires while the request is being sent
    have hduration := o.sendTime_le_duration
    have hover : deadline < t.now + o.duration := by omega
    rw [SendClock.within_of_lt hstart hlate]
    refine ⟨o.answered.elim (.error "") .ok, (SendClock.within_of_lt hstart hover).symm, ?_⟩
    cases o.answered <;> simp
  · rw [SendClock.within_of_le hsent]
    cases hresult : o.sent with
    | error e =>
      rw [AttemptOutcome.duration_error hresult, AttemptOutcome.answered, hresult]
      exact ⟨.error e, (SendClock.within_of_le hsent).symm, by simp⟩
    | ok _ =>
      rw [AttemptOutcome.duration_ok hresult, AttemptOutcome.answered, hresult]
      simp only [SendClock.within_add hsent]
      exact exists_runWith_waitAnswer (s := { t with now := t.now + o.sendTime }) hlast hsent _

/-- An attempt before the total timeout: the connection is attempted for no longer than the
limit, and the attempt yields the answer if it comes in time and is not retryable. -/
theorem runWith_sendRequestWithTimeout (cs : Candidates) (request : Command) (conn : Connection)
    (h : s.now < taken + settings.totalTimeout) :
    ∃ result, (sendRequestWithTimeout settings request conn
        (taken + settings.totalTimeout)).runWith cs.handle s =
      (result, { s.start conn with
        now := s.now + cs.spent settings taken s.attempts.length s.now }) ∧
      ∀ answer, result = .ok answer ↔
        (cs.outcome s.attempts.length).answered = some answer ∧
        (cs.outcome s.attempts.length).duration ≤ limit settings taken s.now ∧
        settings.retryableResultCodes.contains
          (answer.getResultCode.getD ResultCode.diameterSuccess.asU32) = false := by
  have hlimit : limit settings taken s.now =
      if taken + settings.totalTimeout - s.now < settings.perConnTimeout then
        taken + settings.totalTimeout - s.now else settings.perConnTimeout := by
    unfold limit
    split <;> omega
  generalize ho : cs.outcome s.attempts.length = o
  obtain ⟨result, hrun, hresult⟩ := runWith_sendRequestCommand request conn ho
    (Nat.le_add_right s.now (limit settings taken s.now))
  have hclock : (await .now).runWith cs.handle s = (s.now, s) := rfl
  unfold sendRequestWithTimeout
  simp only [runWith_bind, hclock]
  rw [if_neg (by omega), runWith_bind, hclock, runWith_bind, ← hlimit, hrun]
  rw [spent, ho]
  have hstart : (s.start conn).now ≤ s.now + limit settings taken s.now := Nat.le_add_right _ _
  rcases Nat.lt_or_ge (limit settings taken s.now) o.duration with hlate | hin
  · have hover : s.now + limit settings taken s.now < (s.start conn).now + o.duration :=
      Nat.add_lt_add_left hlate _
    rw [SendClock.within_of_lt hstart hover, Nat.min_eq_right hlate.le]
    exact ⟨_, rfl, fun answer => by simp [hlate]⟩
  · have hends : (s.start conn).now + o.duration ≤ s.now + limit settings taken s.now :=
      Nat.add_le_add_left hin _
    rw [SendClock.within_of_le hends, Nat.min_eq_left hin]
    cases result with
    | error e => exact ⟨.error e, rfl, fun answer => by simp [← hresult]⟩
    | ok answer =>
      dsimp only
      split
      · next hretryable =>
        refine ⟨_, rfl, fun b => ⟨fun hb => (by cases hb), ?_⟩⟩
        rintro ⟨hb, -, hfinal⟩
        obtain rfl := Except.ok.inj ((hresult b).mpr hb)
        rw [hretryable] at hfinal
        cases hfinal
      · next hfinal =>
        refine ⟨_, rfl, fun b => ⟨fun hb => ?_, fun hb => (hresult b).mpr hb.1⟩⟩
        obtain rfl := Except.ok.inj hb
        exact ⟨(hresult answer).mp rfl, hin, eq_false_of_ne_true hfinal⟩

/-- Once the total timeout has elapsed no attempt is made. -/
theorem runWith_sendRequestWithTimeout_of_le (h : taken + settings.totalTimeout ≤ s.now) :
    (sendRequestWithTimeout settings request conn (taken + settings.totalTimeout)).runWith
      cs.handle s = (.error "Total timeout reached", s) := by
  have hclock : (await .now).runWith cs.handle s = (s.now, s) := rfl
  unfold sendRequestWithTimeout
  simp only [runWith_bind, hclock]
  rw [if_pos (Nat.sub_eq_zero_of_le h)]
  rfl

/-! ### The loop over the candidates -/

theorem startTime_le (i : Nat) :
    cs.startTime settings taken i ≤ taken + settings.totalTimeout := by
  induction i with
  | zero => exact Nat.le_add_right _ _
  | succ i ih =>
    have hspent : cs.spent settings taken i (cs.startTime settings taken i) ≤
        taken + settings.totalTimeout - cs.startTime settings taken i :=
      (Nat.min_le_right _ _).trans (Nat.min_le_right _ _)
    rw [startTime]
    omega

theorem startTime_mono : Monotone (cs.startTime settings taken) :=
  monotone_nat_of_le_succ fun _ => Nat.le_add_right _ _

theorem Settles.unique {i j : Nat} {a b : Command} (ha : cs.Settles settings taken i a)
    (hb : cs.Settles settings taken j b) : i = j ∧ a = b := by
  have hij : i = j := by
    rcases Nat.lt_trichotomy i j with hlt | heq | hgt
    · exact absurd ha.1 (hb.2 i hlt a)
    · exact heq
    · exact absurd hb.1 (ha.2 j hgt b)
  subst hij
  exact ⟨rfl, Option.some.inj (ha.1.answered.symm.trans hb.1.answered)⟩

/-- The candidates before `k` have been attempted, and it is the turn of `k`. -/
structure Turn (cs : Candidates) (settings : SendSettings) (taken k : Nat) (s : SendClock) :
    Prop where
  length : s.attempts.length = k
  inOrder : s.attempts.map Prod.fst = cs.connections.take k
  started : ∀ i connection start, s.attempts[i]? = some (connection, start) →
    start = cs.startTime settings taken i ∧ start < taken + settings.totalTimeout
  now : s.now = cs.startTime settings taken k

/-- No candidate before `k` has been accepted. -/
def Passed (cs : Candidates) (settings : SendSettings) (taken k : Nat) : Prop :=
  ∀ j < k, ∀ answer, ¬ cs.Accepts settings taken j answer

theorem turn_zero : Turn cs settings taken 0 ⟨taken, []⟩ where
  length := rfl
  inOrder := rfl
  started _ _ _ h := by simp at h
  now := rfl

/-- The attempt on the candidate whose turn it is. -/
theorem Turn.next {k : Nat} (h : Turn cs settings taken k s)
    (hconn : cs.connections[k]? = some conn) (hnow : s.now < taken + settings.totalTimeout) :
    Turn cs settings taken (k + 1)
      { s.start conn with now := s.now + cs.spent settings taken k s.now } where
  length := by simp [SendClock.start, h.length]
  inOrder := by
    rw [SendClock.start, List.map_append, h.inOrder, List.take_add_one, hconn]
    rfl
  started i connection start hi := by
    rcases Nat.lt_or_ge i k with hlt | hge
    · rw [SendClock.start, List.getElem?_append_left (h.length ▸ hlt)] at hi
      exact h.started i connection start hi
    · rw [SendClock.start, List.getElem?_append_right (h.length ▸ hge),
        List.getElem?_singleton] at hi
      split at hi
      · next hzero =>
        obtain ⟨-, rfl⟩ := Prod.mk.inj (Option.some.inj hi)
        have hik : i = k := by
          have := h.length
          omega
        exact ⟨hik ▸ h.now, hnow⟩
      · cases hi
  now := by rw [startTime, h.now]

theorem Passed.not_accepts {k : Nat} (h : Passed cs settings taken k)
    (hend : cs.connections.length ≤ k ∨
      taken + settings.totalTimeout ≤ cs.startTime settings taken k)
    (i : Nat) (answer : Command) : ¬ cs.Accepts settings taken i answer := by
  intro haccepts
  rcases Nat.lt_or_ge i k with hlt | hge
  · exact h i hlt answer haccepts
  · have hcandidate := haccepts.candidate
    have hstarted := haccepts.started
    have hmono : cs.startTime settings taken k ≤ cs.startTime settings taken i := startTime_mono hge
    omega

theorem Turn.keepsBudget_error {k : Nat} (h : Turn cs settings taken k s) {e : String}
    (hnone : ∀ i answer, ¬ cs.Accepts settings taken i answer) :
    cs.KeepsBudget settings taken (.error e, s) where
  inOrder := h.inOrder ▸ List.take_prefix k _
  started := h.started
  returned := h.now ▸ startTime_le k
  ok_iff answer := ⟨fun hok => (by cases hok), fun ⟨i, hi⟩ => absurd hi.1 (hnone i answer)⟩
  last i answer hi := absurd hi.1 (hnone i answer)

theorem Turn.keepsBudget_ok {k : Nat} (h : Turn cs settings taken (k + 1) s) {answer : Command}
    (hsettles : cs.Settles settings taken k answer) :
    cs.KeepsBudget settings taken (.ok answer, s) where
  inOrder := h.inOrder ▸ List.take_prefix (k + 1) _
  started := h.started
  returned := h.now ▸ startTime_le (k + 1)
  ok_iff b := by
    constructor
    · intro hok
      obtain rfl := Except.ok.inj hok
      exact ⟨k, hsettles⟩
    · rintro ⟨i, hi⟩
      rw [(hi.unique hsettles).2]
  last i b hi := by rw [h.length, (hi.unique hsettles).1]

/-- The loop, from the turn of a candidate on. -/
theorem sendRequestVia_keepsBudget (hno : cs.MeetsNoRedirect settings taken)
    (conns : List Connection) {k : Nat} (hconns : cs.connections.drop k = conns)
    (h : Turn cs settings taken k s) (hpassed : Passed cs settings taken k) :
    cs.KeepsBudget settings taken
      ((sendRequestVia settings request (taken + settings.totalTimeout) conns).runWith
        cs.handle s) := by
  induction conns generalizing k s with
  | nil =>
    have hlength : cs.connections.length ≤ k := List.drop_eq_nil_iff.mp hconns
    exact h.keepsBudget_error (hpassed.not_accepts (.inl hlength))
  | cons conn conns ih =>
    have hconn : cs.connections[k]? = some conn := by
      rw [← List.head?_drop, hconns, List.head?_cons]
    have hrest : cs.connections.drop (k + 1) = conns := by
      rw [← List.tail_drop, hconns, List.tail_cons]
    -- what the loop does behind an attempt without an accepted answer
    have htryNext : ∀ t : SendClock, Program.runWith cs.handle (do
          if taken + settings.totalTimeout ≤ (← await .now) then
            return .error "Total timeout reached"
          else sendRequestVia settings request (taken + settings.totalTimeout) conns) t =
        if taken + settings.totalTimeout ≤ t.now then (.error "Total timeout reached", t)
        else (sendRequestVia settings request (taken + settings.totalTimeout) conns).runWith
          cs.handle t := by
      intro t
      have hclock : (await .now).runWith cs.handle t = (t.now, t) := rfl
      rw [runWith_bind, hclock]
      exact apply_ite (fun p => Program.runWith cs.handle p t) _ _ _
    unfold sendRequestVia
    rw [runWith_bind]
    rcases Nat.lt_or_ge s.now (taken + settings.totalTimeout) with hin | hover
    · obtain ⟨result, hrun, hresult⟩ :=
        runWith_sendRequestWithTimeout cs request conn hin
      rw [hrun, h.length]
      rw [h.length, h.now] at hresult
      have hnext := h.next hconn hin
      generalize ({ s.start conn with now := s.now + cs.spent settings taken k s.now } :
        SendClock) = t at hnext ⊢
      have haccepts : ∀ answer, result = .ok answer ↔ cs.Accepts settings taken k answer := by
        intro answer
        rw [hresult]
        constructor
        · rintro ⟨hanswered, hinTime, hfinal⟩
          exact ⟨(List.getElem?_eq_some_iff.mp hconn).1, h.now ▸ hin, hanswered, hinTime, hfinal⟩
        · intro hanswer
          exact ⟨hanswer.answered, hanswer.inTime, hanswer.final⟩
      cases result with
      | ok answer =>
        have hsettles : cs.Settles settings taken k answer := ⟨(haccepts answer).mp rfl, hpassed⟩
        dsimp only
        rw [if_neg (hno k answer hsettles)]
        exact hnext.keepsBudget_ok hsettles
      | error e =>
        have hpassed' : Passed cs settings taken (k + 1) := by
          intro j hj answer hanswer
          rcases Nat.lt_succ_iff_lt_or_eq.mp hj with hlt | rfl
          · exact hpassed j hlt answer hanswer
          · cases (haccepts answer).mpr hanswer
        dsimp only
        rw [htryNext]
        split
        · next hover =>
          exact hnext.keepsBudget_error (hpassed'.not_accepts (.inr (hnext.now ▸ hover)))
        · exact ih hrest hnext hpassed'
    · rw [runWith_sendRequestWithTimeout_of_le hover]
      dsimp only
      rw [htryNext, if_pos hover]
      exact h.keepsBudget_error (hpassed.not_accepts (.inr (h.now ▸ hover)))

/-- `send_request` attempts the candidates in order and ends with the answer of the first one
that answers in time and for good; neither time limit is passed, whatever the outcomes. -/
theorem sendRequest_keepsBudget (cs : Candidates) (settings : SendSettings) (request : Command)
    (now : Nat) (h : cs.MeetsNoRedirect settings (now + cs.lookupTime)) :
    cs.KeepsBudget settings (now + cs.lookupTime)
      ((sendRequest settings request).runWith cs.handle ⟨now, []⟩) := by
  have hrun : (sendRequest settings request).runWith cs.handle ⟨now, []⟩ =
      (sendRequestVia settings request (now + cs.lookupTime + settings.totalTimeout)
        cs.connections).runWith cs.handle ⟨now + cs.lookupTime, []⟩ := rfl
  rw [hrun]
  exact sendRequestVia_keepsBudget h cs.connections rfl turn_zero fun _ hj => by omega

end

/-- A request that gets the result code success in the end. -/
def creditControl : Command :=
  { code := 272, flags := 0xC0, applicationId := 4, hopByHopId := 1, endToEndId := 1, avps := [] }

def success : Command :=
  creditControl.createResponse.setResultCode ResultCode.diameterSuccess.asU32

/-- Three candidates, found after 5 ms: one that refuses the request, one that takes 40 ms
for its answer, and one that takes 20. -/
def lastInTime : Candidates where
  connections := [.leaf ⟨0, "a", "host.a", "realm"⟩, .leaf ⟨0, "b", "host.b", "realm"⟩,
    .leaf ⟨0, "c", "host.c", "realm"⟩]
  lookupTime := 5
  outcome
    | 0 => { sendTime := 2, sent := .error "closed", info := none, waitTime := 0, answer := none }
    | 1 => { sendTime := 1, sent := .ok (), info := some 0, waitTime := 39, answer := some success }
    | _ => { sendTime := 1, sent := .ok (), info := some 0, waitTime := 19, answer := some success }

theorem answered_lastInTime {i : Nat} {answer : Command}
    (h : (lastInTime.outcome i).answered = some answer) : answer = success := by
  match i with
  | 0 => cases h
  | 1 | _ + 2 => exact (Option.some.inj h).symm

/-- With 30 ms for each connection and 52 for all, the third one answers at the last moment. -/
theorem sendRequest_keepsBudget_lastInTime :
    lastInTime.KeepsBudget ⟨30, 52, []⟩ 5
      ((sendRequest ⟨30, 52, []⟩ creditControl).runWith lastInTime.handle ⟨0, []⟩) ∧
    (sendRequest ⟨30, 52, []⟩ creditControl).runWith lastInTime.handle ⟨0, []⟩ =
      (.ok success, ⟨57, [(.leaf ⟨0, "a", "host.a", "realm"⟩, 5),
        (.leaf ⟨0, "b", "host.b", "realm"⟩, 7), (.leaf ⟨0, "c", "host.c", "realm"⟩, 37)]⟩) := by
  refine ⟨sendRequest_keepsBudget lastInTime ⟨30, 52, []⟩ creditControl 0 ?_, ?_⟩
  · intro i answer h
    rw [answered_lastInTime h.1.answered, success, Command.getResultCode_setResultCode]
    decide
  · rfl

end Candidates

end RestDiameterBridge
