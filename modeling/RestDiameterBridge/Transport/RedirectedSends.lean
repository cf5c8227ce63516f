import RestDiameterBridge.Transport.Journal

/-!
# RestDiameterBridge.Transport.RedirectedSends

The runs of `send_request`, with the redirects it follows (`send_request`, `redirect_request`
and `send_request_with_timeout` in `src/transport/connection_manager.rs`).

`send_request` and `redirect_request` have one loop in common (`tryInTurn`): `send_request` is
that loop, and behind it what it does with a redirect (`sendRequestVia_eq`). So the runs of the
loop are described once (`InTurn`), whatever the connections, the clock and the answers do, and
`sendRequestRun_of_reaches` puts at most two of them together. Every request that a node sends,
for a peer or for a REST client, is sent in such a run (`sendRequest_ends`).
-/

namespace RestDiameterBridge

open Program Transition

/-- The answer is no reason to try the next connection. -/
def Command.isFinal (settings : SendSettings) (answer : Command) : Bool :=
  !settings.retryableResultCodes.contains
    (answer.getResultCode.getD ResultCode.diameterSuccess.asU32)

/-- The answer is a redirect. -/
def Command.IsRedirect (answer : Command) : Prop :=
  answer.getResultCode.getD ResultCode.diameterSuccess.asU32 =
    ResultCode.diameterRedirectIndication.asU32

/-- The connection on which a call tries to send a request. -/
def Event.triedOn (e : Event) : Option Connection :=
  match e.1 with
  | .sendWithin _ connection _ => some connection
  | _ => none

/-- The answer that a call has waited for. -/
def Event.answer (e : Event) : Option Command :=
  match e with
  | ⟨.notified .., some answer⟩ => answer
  | _ => none

/-- The time that a call reads. -/
def Event.reading (e : Event) : Option Nat :=
  match e with
  | ⟨.now, t⟩ => some t
  | _ => none

/-- The calls of an attempt. -/
def Call.Attempts (request : Command) : Call → Prop
  | now => True
  | sendWithin _ _ command => command = request
  | getAnswerInfo hopByHopId | notified _ hopByHopId _ => hopByHopId = request.hopByHopId
  | _ => False

/-- The run in which connections are tried, with its result. -/
structure TriesInTurn (settings : SendSettings) (request : Command) (timeoutTime : Nat)
    (conns : List Connection) (trace : List Event) (result : Except String Command) : Prop where
  calls : ∀ e ∈ trace, e.1.Attempts request
  /-- They are tried in order, each once at most. -/
  inOrder : trace.filterMap Event.triedOn <+: conns
  /-- An attempt begins before the time is over, with the timeout of the connection or what is
  left of the time, whichever is less. -/
  timed : ∀ deadline conn command sent, ⟨.sendWithin deadline conn command, sent⟩ ∈ trace →
    ∃ t t', t < timeoutTime ∧ deadline = t' + min settings.perConnTimeout (timeoutTime - t) ∧
      [⟨.now, t⟩, ⟨.now, t'⟩, ⟨.sendWithin deadline conn command, sent⟩] <:+: trace
  /-- The first final answer is the result, -/
  settles : result.toOption = (trace.filterMap Event.answer).find? (·.isFinal settings)
  /-- and nothing is done behind it. -/
  last : ∀ answer, result = .ok answer → ∃ e, trace.getLast? = some e ∧ e.answer = some answer
  /-- Without one all have been tried, or the time is over. -/
  gaveUp : ∀ e, result = .error e → trace.filterMap Event.triedOn = conns ∨
    ∃ t, timeoutTime ≤ t ∧ ⟨.now, t⟩ ∈ trace

/-! ### The loop -/

/-- The connections are tried in turn until one yields an answer. -/
def tryInTurn (settings : SendSettings) (request : Command) (timeoutTime : Nat)
    (failure : String) : List Connection → Proc (Except String Command)
  | [] => return .error failure
  | conn :: conns => do
      match ← sendRequestWithTimeout settings request conn timeoutTime with
      | .ok answer => return .ok answer
      | .error _ =>
          if timeoutTime ≤ (← await .now) then return .error "Total timeout reached"
          else tryInTurn settings request timeoutTime failure conns

/-- What `send_request` does with the result of its loop. -/
def followRedirect (settings : SendSettings) (request : Command) (timeoutTime : Nat) :
    Except String Command → Proc (Except String Command)
  | .error e => return .error e
  | .ok answer =>
      let resultCode := answer.getResultCode.getD ResultCode.diameterSuccess.asU32
      if resultCode = ResultCode.diameterRedirectIndication.asU32 then do
        await (.addRedirect answer)
        match ← await (.getConnectionsByHosts (answer.getRedirectHosts.getD [])) with
        | some connections => redirectRequest settings request timeoutTime connections
        | none => return .error "No available connections found for redirect hosts"
      else return .ok answer

section
variable {settings : SendSettings} {request : Command} {timeoutTime : Nat}

theorem redirectRequest_eq (conns : List Connection) :
    redirectRequest settings request timeoutTime conns =
      tryInTurn settings request timeoutTime "Fail to send command after redirect" conns := by
  induction conns with
  | nil => rfl
  | cons conn conns ih =>
    unfold redirectRequest tryInTurn
    congr 1
    funext result
    cases result with
    | ok answer => rfl
    | error e => rw [ih]

/-- Since the list of redirect hosts is always present, the loop never goes on behind a
redirect. -/
theorem sendRequestVia_eq (conns : List Connection) :
    sendRequestVia settings request timeoutTime conns =
      tryInTurn settings request timeoutTime "Fail to send command" conns >>=
        followRedirect settings request timeoutTime := by
  induction conns with
  | nil => rfl
  | cons conn conns ih =>
    unfold sendRequestVia tryInTurn
    rw [bind_assoc]
    refine congrArg (sendRequestWithTimeout settings request conn timeoutTime >>= ·)
      (funext fun result => ?_)
    cases result with
    | ok answer =>
      show (if answer.getResultCode.getD ResultCode.diameterSuccess.asU32 =
        ResultCode.diameterRedirectIndication.asU32 then _ else _) = ite _ _ _
      split
      · refine congrArg (Program.call (Call.addRedirect answer)) (funext fun _ => ?_)
        refine congrArg (Program.call (Call.getConnectionsByHosts _)) (funext fun found => ?_)
        cases found <;> rfl
      · rfl
    | error e =>
      refine congrArg (Program.call Call.now) (funext fun t => ?_)
      show (if timeoutTime ≤ t then _ else _) = Program.bind (if timeoutTime ≤ t then _ else _) _
      split
      · rfl
      · exact ih

end

/-! ### One attempt -/

section
variable {settings : SendSettings} {request : Command} {timeoutTime deadline : Nat}
  {conn : Connection} {conns conns' : List Connection} {trace first rest : List Event}
  {result : Except String Command}

/-- The request is sent, and what is waited for is what comes out. -/
theorem reaches_sendRequestCommand {r : Option (Except String Command)}
    (h : (sendRequestCommand deadline request conn).Reaches trace (.ret r)) :
    ∃ sent rest, trace = ⟨.sendWithin deadline conn request, sent⟩ :: rest ∧
      (∀ e ∈ rest, e.1.Attempts request) ∧ rest.filterMap Event.triedOn = [] ∧
      rest.filterMap Event.answer = (r.bind Except.toOption).toList ∧
      ∀ answer, r = some (.ok answer) → ∃ e, trace.getLast? = some e ∧ e.answer = some answer := by
  rcases reaches_call.mp h with ⟨-, heq⟩ | ⟨sent, rest, rfl, hrest⟩
  · cases heq
  · refine ⟨sent, rest, rfl, ?_⟩
    match sent, hrest with
    | none, hrest | some (.error _), hrest =>
      obtain ⟨rfl, heq⟩ := reaches_ret.mp hrest
      cases heq
      exact ⟨by simp, rfl, rfl, by simp⟩
    | some (.ok ()), hrest =>
      rcases reaches_call.mp hrest with ⟨-, heq⟩ | ⟨info, rest', rfl, hrest'⟩
      · cases heq
      · match info, hrest' with
        | none, hrest' =>
          obtain ⟨rfl, heq⟩ := reaches_ret.mp hrest'
          cases heq
          exact ⟨by simp [Call.Attempts], rfl, rfl, by simp⟩
        | some info, hrest' =>
          rcases reaches_call.mp hrest' with ⟨-, heq⟩ | ⟨answer, rest'', rfl, hrest''⟩
          · cases heq
          · match answer, hrest'' with
            | none, hrest'' | some none, hrest'' =>
              obtain ⟨rfl, heq⟩ := reaches_ret.mp hrest''
              cases heq
              exact ⟨by simp [Call.Attempts], rfl, rfl, by simp⟩
            | some (some answer), hrest'' =>
              obtain ⟨rfl, heq⟩ := reaches_ret.mp hrest''
              cases heq
              refine ⟨by simp [Call.Attempts], rfl, rfl, fun a ha => ?_⟩
              cases ha
              exact ⟨_, rfl, rfl⟩

/-- An attempt is a loop over one connection. -/
theorem triesInTurn_sendRequestWithTimeout
    (h : (sendRequestWithTimeout settings request conn timeoutTime).Reaches trace (.ret result)) :
    TriesInTurn settings request timeoutTime [conn] trace result := by
  rcases reaches_call.mp h with ⟨-, heq⟩ | ⟨t, rest, rfl, hrest⟩
  · cases heq
  replace hrest : Program.Reaches (if timeoutTime - t = 0 then _ else _) rest (.ret result) := hrest
  split at hrest
  · rename_i hlate
    obtain ⟨rfl, heq⟩ := reaches_ret.mp hrest
    cases heq
    exact ⟨by simp [Call.Attempts], List.nil_prefix, by simp, rfl, by simp,
      fun _ _ => .inr ⟨t, Nat.le_of_sub_eq_zero hlate, by simp⟩⟩
  · rename_i hearly
    rcases reaches_call.mp hrest with ⟨-, heq⟩ | ⟨t', rest', rfl, hrest'⟩
    · cases heq
    have hattempt : Program.Reaches (sendRequestCommand (t' + _) request conn >>= _) rest'
      (.ret result) := hrest'
    obtain ⟨first, second, r, rfl, hfirst, hsecond⟩ := Reaches.bind_ret hattempt
    have hdeadline : (if timeoutTime - t < settings.perConnTimeout then timeoutTime - t
        else settings.perConnTimeout) = min settings.perConnTimeout (timeoutTime - t) := by
      split <;> omega
    rw [hdeadline] at hfirst
    obtain ⟨sent, rest, rfl, hcalls, htried, hanswers, hlast⟩ := reaches_sendRequestCommand hfirst
    have hsettled : second = [] ∧
        result.toOption = (r.bind Except.toOption).filter (·.isFinal settings) := by
      match r, hsecond with
      | none, hsecond | some (.error _), hsecond =>
        obtain ⟨rfl, heq⟩ := reaches_ret.mp hsecond
        cases heq
        exact ⟨rfl, rfl⟩
      | some (.ok answer), hsecond =>
        dsimp only at hsecond
        split at hsecond
        · rename_i hretryable
          obtain ⟨rfl, heq⟩ := reaches_ret.mp hsecond
          cases heq
          have hfinal : answer.isFinal settings = false := congrArg not hretryable
          exact ⟨rfl, (Option.filter_some_neg hfinal).symm⟩
        · rename_i hnot
          obtain ⟨rfl, heq⟩ := reaches_ret.mp hsecond
          cases heq
          have hfinal : answer.isFinal settings = true := by simpa [Command.isFinal] using hnot
          exact ⟨rfl, (Option.filter_some_pos hfinal).symm⟩
    obtain ⟨rfl, hresult⟩ := hsettled
    rw [List.append_nil]
    constructor
    case calls =>
      simp only [List.forall_mem_cons]
      exact ⟨trivial, trivial, rfl, hcalls⟩
    case inOrder => simp [List.filterMap_cons, Event.triedOn, htried]
    case timed =>
      intro deadline conn' command sent' hmem
      rcases List.mem_cons.mp hmem with heq | hmem
      · cases heq
      rcases List.mem_cons.mp hmem with heq | hmem
      · cases heq
      rcases List.mem_cons.mp hmem with heq | hmem
      · cases heq
        exact ⟨t, t', by omega, rfl, [], rest, rfl⟩
      · have hnone := List.filterMap_eq_nil_iff.mp htried _ hmem
        cases hnone
    case settles =>
      have hwaited : List.filterMap Event.answer (⟨.now, t⟩ :: ⟨.now, t'⟩ ::
          ⟨.sendWithin (t' + min settings.perConnTimeout (timeoutTime - t)) conn request, sent⟩ ::
            rest) = (r.bind Except.toOption).toList := hanswers
      rw [hwaited, hresult]
      cases r.bind Except.toOption with
      | none => rfl
      | some answer =>
        show _ = List.find? _ [answer]
        rw [Option.filter_some, List.find?_cons]
        cases answer.isFinal settings <;> rfl
    case last =>
      intro answer hanswer
      have hr : r = some (.ok answer) := by
        rw [hanswer] at hresult
        obtain ⟨hbind, -⟩ := Option.filter_eq_some_iff.mp hresult.symm
        obtain ⟨outcome, rfl, houtcome⟩ := Option.bind_eq_some_iff.mp hbind
        cases outcome with
        | ok a =>
          obtain rfl := Option.some.inj houtcome
          rfl
        | error e => cases houtcome
      obtain ⟨e, he, hwaited⟩ := hlast answer hr
      refine ⟨e, ?_, hwaited⟩
      rw [List.getLast?_cons_cons, List.getLast?_cons_cons]
      exact he
    case gaveUp => exact fun _ _ => .inl (by simp [List.filterMap_cons, Event.triedOn, htried])

/-! ### The loop, run -/

/-- More connections behind those that were tried, if there is no time left for them. -/
theorem TriesInTurn.extend (h : TriesInTurn settings request timeoutTime conns trace result)
    (hgave : ∀ e, result = .error e → ∃ t, timeoutTime ≤ t ∧ ⟨.now, t⟩ ∈ trace) :
    TriesInTurn settings request timeoutTime (conns ++ conns') trace result :=
  ⟨h.calls, h.inOrder.trans (List.prefix_append _ _), h.timed, h.settles, h.last,
    fun e he => .inr (hgave e he)⟩

/-- Once some have been tried in vain, others are. -/
theorem TriesInTurn.append {all : List Connection} {e : String}
    (h : TriesInTurn settings request timeoutTime conns first (.error e))
    (hrest : TriesInTurn settings request timeoutTime conns' rest result)
    (horder : (first ++ rest).filterMap Event.triedOn <+: all)
    (hgave : ∀ e, result = .error e → (first ++ rest).filterMap Event.triedOn = all ∨
      ∃ t, timeoutTime ≤ t ∧ ⟨.now, t⟩ ∈ first ++ rest) :
    TriesInTurn settings request timeoutTime all (first ++ rest) result := by
  have hnone : (first.filterMap Event.answer).find? (·.isFinal settings) = none := h.settles.symm
  refine ⟨List.forall_mem_append.mpr ⟨h.calls, hrest.calls⟩, horder, ?_, ?_, ?_, hgave⟩
  · intro deadline conn command sent hmem
    rcases List.mem_append.mp hmem with hmem | hmem
    · obtain ⟨t, t', ht, hdeadline, hinfix⟩ := h.timed deadline conn command sent hmem
      exact ⟨t, t', ht, hdeadline, hinfix.trans (List.prefix_append first rest).isInfix⟩
    · obtain ⟨t, t', ht, hdeadline, hinfix⟩ := hrest.timed deadline conn command sent hmem
      exact ⟨t, t', ht, hdeadline, hinfix.trans (List.suffix_append first rest).isInfix⟩
  · rw [List.filterMap_append, List.find?_append, hnone, Option.none_or]
    exact hrest.settles
  · intro answer hanswer
    obtain ⟨event, hlast, hwaited⟩ := hrest.last answer hanswer
    exact ⟨event, by rw [List.getLast?_append, hlast, Option.some_or], hwaited⟩

/-- A look at the clock between two attempts. -/
theorem triesInTurn_now (t : Nat) (e : String) :
    TriesInTurn settings request timeoutTime [] [⟨.now, t⟩] (.error e) :=
  ⟨by simp [Call.Attempts], List.nil_prefix, by simp, rfl, by simp, fun _ _ => .inl rfl⟩

/-- The runs of the loop, while the clock does not go back. -/
theorem triesInTurn_of_reaches {failure : String} {conns : List Connection}
    (h : (tryInTurn settings request timeoutTime failure conns).Reaches trace (.ret result))
    (hclock : (trace.filterMap Event.reading).Pairwise (· ≤ ·)) :
    TriesInTurn settings request timeoutTime conns trace result := by
  induction conns generalizing trace with
  | nil =>
    obtain ⟨rfl, heq⟩ := reaches_ret.mp h
    cases heq
    exact ⟨by simp, List.nil_prefix, by simp, rfl, by simp, fun _ _ => .inl rfl⟩
  | cons conn conns ih =>
    obtain ⟨first, second, outcome, rfl, hfirst, hsecond⟩ := Reaches.bind_ret h
    have hattempt := triesInTurn_sendRequestWithTimeout hfirst
    cases outcome with
    | ok answer =>
      obtain ⟨rfl, heq⟩ := reaches_ret.mp hsecond
      cases heq
      rw [List.append_nil]
      exact hattempt.extend (by simp)
    | error e =>
      rcases reaches_call.mp hsecond with ⟨-, heq⟩ | ⟨t, rest, rfl, hrest⟩
      · cases heq
      replace hrest : Program.Reaches (if timeoutTime ≤ t then _ else _) rest (.ret result) := hrest
      split at hrest
      · rename_i hlate
        obtain ⟨rfl, heq⟩ := reaches_ret.mp hrest
        cases heq
        refine hattempt.append (triesInTurn_now t _) ?_ fun _ _ => .inr ⟨t, hlate, by simp⟩
        have hlook : [(⟨.now, t⟩ : Event)].filterMap Event.triedOn = [] := rfl
        rw [List.filterMap_append, hlook, List.append_nil]
        exact hattempt.inOrder.trans (List.prefix_append [conn] conns)
      · rename_i hearly
        rw [List.filterMap_append, List.pairwise_append] at hclock
        obtain ⟨-, hclock, hbefore⟩ := hclock
        have hmore := ih hrest (List.pairwise_cons.mp hclock).2
        -- the attempt was not too late, or it would be too late now
        have htried : first.filterMap Event.triedOn = [conn] := by
          refine (hattempt.gaveUp e rfl).resolve_right ?_
          rintro ⟨s, hs, hmem⟩
          have hle : s ≤ t :=
            hbefore s (List.mem_filterMap.mpr ⟨_, hmem, rfl⟩) t (by simp [Event.reading])
          omega
        have hall : (first ++ ⟨.now, t⟩ :: rest).filterMap Event.triedOn =
            conn :: rest.filterMap Event.triedOn := by
          rw [List.filterMap_append, htried]
          rfl
        have hgave : ∀ e, result = .error e → rest.filterMap Event.triedOn = conns ∨
            ∃ s, timeoutTime ≤ s ∧ ⟨.now, s⟩ ∈ (⟨.now, t⟩ :: rest : List Event) := by
          intro e' he'
          refine (hmore.gaveUp e' he').imp_right ?_
          rintro ⟨s, hs, hmem⟩
          exact ⟨s, hs, List.mem_cons_of_mem _ hmem⟩
        have hlook := (triesInTurn_now t e).append hmore hmore.inOrder hgave
        refine hattempt.append hlook ?_ fun e' he' => ?_
        · show List.filterMap Event.triedOn (first ++ ⟨.now, t⟩ :: rest) <+: _
          rw [hall]
          exact (List.prefix_cons_inj conn).mpr hmore.inOrder
        · show List.filterMap Event.triedOn (first ++ ⟨.now, t⟩ :: rest) = _ ∨ _
          rw [hall]
          refine (hgave e' he').imp (congrArg _) ?_
          rintro ⟨s, hs, hmem⟩
          exact ⟨s, hs, List.mem_append_right _ hmem⟩

end

/-! ### The runs of `send_request` -/

/-- The runs of `send_request` to their end, with their results. -/
inductive SendRequestRun (settings : SendSettings) (request : Command) :
    List Event → Except String Command → Prop
  | unrouted {e : String} :
      SendRequestRun settings request [⟨.getConnectionsForRequest request, .error e⟩] (.error e)
  /-- The candidates are tried, and none of them redirects the request. -/
  | direct {connections : List Connection} {taken : Nat} {trace : List Event}
      {result : Except String Command} :
      TriesInTurn settings request (taken + settings.totalTimeout) connections trace result →
      (∀ answer, result = .ok answer → ¬answer.IsRedirect) →
      SendRequestRun settings request
        (⟨.getConnectionsForRequest request, .ok connections⟩ :: ⟨.now, taken⟩ :: trace) result
  /-- One redirects it, and the connections of the redirect hosts are tried, in what is left of
  the time. Of these an answer is taken as it is. -/
  | redirected {connections : List Connection} {taken : Nat} {trace rest : List Event}
      {answer : Command} {hosts : List String} {found : Option (List Connection)}
      {result : Except String Command} :
      TriesInTurn settings request (taken + settings.totalTimeout) connections trace (.ok answer) →
      answer.IsRedirect → answer.getRedirectHosts = some hosts →
      TriesInTurn settings request (taken + settings.totalTimeout) (found.getD []) rest result →
      SendRequestRun settings request
        (⟨.getConnectionsForRequest request, .ok connections⟩ :: ⟨.now, taken⟩ ::
          (trace ++ ⟨.addRedirect answer, ()⟩ :: ⟨.getConnectionsByHosts hosts, found⟩ :: rest))
        result

section
variable {settings : SendSettings} {request : Command} {timeoutTime : Nat} {trace : List Event}
  {result : Except String Command}

theorem Event.of_answer {e : Event} {answer : Command} (h : e.answer = some answer) :
    ∃ deadline id info, e = ⟨.notified deadline id info, some (some answer)⟩ := by
  obtain ⟨c, r⟩ := e
  cases c with
  | notified deadline id info =>
    match r, h with
    | some (some a), h =>
      obtain rfl : a = answer := Option.some.inj h
      exact ⟨deadline, id, info, rfl⟩
  | _ => cases h

/-- An answer that is returned is a final one that was waited for. -/
theorem TriesInTurn.answered {conns : List Connection} {answer : Command}
    (h : TriesInTurn settings request timeoutTime conns trace (.ok answer)) :
    answer.isFinal settings = true ∧ ∃ deadline info,
      ⟨.notified deadline request.hopByHopId info, some (some answer)⟩ ∈ trace := by
  refine ⟨List.find?_some h.settles.symm, ?_⟩
  obtain ⟨e, hlast, hanswer⟩ := h.last answer rfl
  have hmem := List.mem_of_getLast? hlast
  obtain ⟨deadline, id, info, rfl⟩ := Event.of_answer hanswer
  obtain rfl : id = request.hopByHopId := h.calls _ hmem
  exact ⟨deadline, info, hmem⟩

theorem SendRequestRun.answered {answer : Command}
    (h : SendRequestRun settings request trace (.ok answer)) :
    answer.isFinal settings = true ∧ ∃ deadline info,
      ⟨.notified deadline request.hopByHopId info, some (some answer)⟩ ∈ trace := by
  cases h with
  | direct htried _ =>
    obtain ⟨hfinal, deadline, info, hmem⟩ := htried.answered
    exact ⟨hfinal, deadline, info, by simp [hmem]⟩
  | redirected _ _ _ hmore =>
    obtain ⟨hfinal, deadline, info, hmem⟩ := hmore.answered
    exact ⟨hfinal, deadline, info, by simp [hmem]⟩

/-- Where no redirect is followed, the first final answer is returned. -/
theorem SendRequestRun.result_eq {answer : Command}
    (h : SendRequestRun settings request trace result)
    (hstays : ∀ redirect, ⟨.addRedirect redirect, ()⟩ ∉ trace)
    (hanswer : (trace.filterMap Event.answer).find? (·.isFinal settings) = some answer) :
    result = .ok answer := by
  cases h with
  | unrouted => cases hanswer
  | direct htried _ =>
    have hfound : result.toOption = some answer := htried.settles.trans hanswer
    cases result with
    | error e => cases hfound
    | ok a => exact congrArg Except.ok (Option.some.inj hfound)
  | @redirected _ _ _ _ redirect => exact absurd (by simp) (hstays redirect)

/-- What becomes of a redirect. -/
theorem reaches_followRedirect {answer : Command} (hredirect : answer.IsRedirect)
    (h : (followRedirect settings request timeoutTime (.ok answer)).Reaches trace (.ret result))
    (hclock : (trace.filterMap Event.reading).Pairwise (· ≤ ·)) :
    ∃ hosts found rest, answer.getRedirectHosts = some hosts ∧
      trace = ⟨.addRedirect answer, ()⟩ :: ⟨.getConnectionsByHosts hosts, found⟩ :: rest ∧
      TriesInTurn settings request timeoutTime (found.getD []) rest result := by
  have hfollows : followRedirect settings request timeoutTime (.ok answer) = (do
      await (.addRedirect answer)
      match ← await (.getConnectionsByHosts (answer.getRedirectHosts.getD [])) with
      | some connections => redirectRequest settings request timeoutTime connections
      | none => return .error "No available connections found for redirect hosts") :=
    if_pos hredirect
  rw [hfollows] at h
  rcases reaches_call.mp h with ⟨-, heq⟩ | ⟨⟨⟩, rest, rfl, hrest⟩
  · cases heq
  rcases reaches_call.mp hrest with ⟨-, heq⟩ | ⟨found, rest', rfl, hrest'⟩
  · cases heq
  refine ⟨_, found, rest', rfl, rfl, ?_⟩
  cases found with
  | none =>
    obtain ⟨rfl, heq⟩ := reaches_ret.mp hrest'
    cases heq
    exact ⟨by simp, List.nil_prefix, by simp, rfl, by simp, fun _ _ => .inl rfl⟩
  | some connections =>
    have hredirected : (redirectRequest settings request timeoutTime connections).Reaches rest'
      (.ret result) := hrest'
    rw [redirectRequest_eq] at hredirected
    exact triesInTurn_of_reaches hredirected hclock

end

/-- However the clock goes on, the connections are found, and the attempts end: the candidates
are tried in their order, each once at most and within the total timeout, until a final answer
comes; one redirect is followed, in the same way and the same time; and nothing but these answers
is returned. -/
theorem sendRequestRun_of_reaches {settings : SendSettings} {request : Command}
    {trace : List Event} {result : Except String Command}
    (h : (sendRequest settings request).Reaches trace (.ret result))
    (hclock : (trace.filterMap Event.reading).Pairwise (· ≤ ·)) :
    SendRequestRun settings request trace result := by
  rcases reaches_call.mp h with ⟨-, heq⟩ | ⟨candidates, rest, rfl, hrest⟩
  · cases heq
  match candidates, hrest with
  | .error e, hrest =>
    obtain ⟨rfl, heq⟩ := reaches_ret.mp hrest
    cases heq
    exact .unrouted
  | .ok connections, hrest =>
    rcases reaches_call.mp hrest with ⟨-, heq⟩ | ⟨taken, rest', rfl, hrest'⟩
    · cases heq
    have hvia : (sendRequestVia settings request (taken + settings.totalTimeout)
      connections).Reaches rest' (.ret result) := hrest'
    rw [sendRequestVia_eq] at hvia
    obtain ⟨first, second, outcome, rfl, hfirst, hsecond⟩ := Reaches.bind_ret hvia
    have hclocks := (List.pairwise_cons.mp hclock).2
    rw [List.filterMap_append, List.pairwise_append] at hclocks
    have htried := triesInTurn_of_reaches hfirst hclocks.1
    cases outcome with
    | error e =>
      obtain ⟨rfl, heq⟩ := reaches_ret.mp hsecond
      cases heq
      rw [List.append_nil]
      exact .direct htried (by simp)
    | ok answer =>
      by_cases hredirect : answer.IsRedirect
      · obtain ⟨hosts, found, rest, hhosts, rfl, hmore⟩ :=
          reaches_followRedirect hredirect hsecond hclocks.2.1
        exact .redirected htried hredirect hhosts hmore
      · have hstays : followRedirect settings request (taken + settings.totalTimeout) (.ok answer) =
            return .ok answer := if_neg hredirect
        rw [hstays] at hsecond
        obtain ⟨rfl, heq⟩ := reaches_ret.mp hsecond
        cases heq
        rw [List.append_nil]
        refine .direct htried fun a ha => ?_
        obtain rfl := Except.ok.inj ha
        exact hredirect

/-! ### The clock of a node -/

section
variable {entries : List Entry} {start : Nat} {s : SharedState}

/-- The calls on record come one after the other. -/
theorem Recorded.times_pairwise (h : Recorded start entries s) :
    entries.Pairwise fun e e' => e.time ≤ e'.time := by
  induction h with
  | nil => exact .nil
  | @snoc entries s e hbefore hallows ih =>
    refine List.pairwise_append.mpr ⟨ih, List.pairwise_singleton _ _, fun e' he' last hlast => ?_⟩
    rw [List.mem_singleton.mp hlast]
    exact (Recorded.time_le hbefore he').trans hallows.1

end

namespace Journal

variable {s : Node} {g : Journal} {start : Nat}

/-- The clock gives the time of the call. -/
def Clocked (g : Journal) : Prop := ∀ e ∈ g.entries, ∀ t, e.event.reading = some t → t = e.time

theorem clocked_of_run {settings : SendSettings} {myHost myRealm : String} {labels : List Node.Label}
    (hrun : run Node.journalStep (.new settings myHost myRealm start, empty) labels = some (s, g)) :
    g.Clocked := by
  refine run_invariant (I := fun sg : Node × Journal => sg.2.Clocked)
    (fun {sg l sg'} hclocked hstep => ?_) (fun e he => by cases he) hrun
  obtain ⟨s, g⟩ := sg
  obtain ⟨s', g'⟩ := sg'
  have h : g.Clocked := hclocked
  cases Node.journalStep_cases hstep with
  | idle => exact h
  | exchange => exact forall_entries_write.mpr ⟨h, fun t ht => by cases ht⟩
  | start => exact h
  | @call id t j j' answer c next r s' _ _ hperform =>
    refine forall_entries_write.mpr ⟨h, fun t ht => ?_⟩
    cases c with
    | now =>
      obtain rfl := Option.some.inj ht
      exact ((Node.reply_inj hperform).1).symm
    | _ => cases ht

/-- So the readings of a job do not go back. -/
theorem readings_pairwise {settings : SendSettings} {myHost myRealm : String}
    {labels : List Node.Label} (k : Nat)
    (hrun : run Node.journalStep (.new settings myHost myRealm start, empty) labels = some (s, g)) :
    ((g.trace k).filterMap Event.reading).Pairwise (· ≤ ·) := by
  obtain ⟨now, -, hrecorded⟩ := (tracks_of_run hrun).shared
  have hclocked := clocked_of_run hrun
  rw [trace, RestDiameterBridge.trace, List.pairwise_filterMap, List.pairwise_map]
  refine (hrecorded.times_pairwise.sublist List.filter_sublist).imp_of_mem ?_
  intro e e' he he' hle t ht t' ht'
  rw [hclocked e (List.mem_of_mem_filter he) t ht, hclocked e' (List.mem_of_mem_filter he') t' ht']
  exact hle

end Journal

/-! ### The requests that a node sends -/

/-- The call is no part of sending a request. -/
def Call.Apart : Call → Prop
  | getConnectionsForRequest _ | sendWithin .. => False
  | _ => True

/-- If connections are asked for in a run of the program, a request is sent in it, once. -/
def AsksOnce {α : Type} (settings : SendSettings) (p : Proc α) : Prop :=
  ∀ trace a request candidates, p.Reaches trace (.ret a) →
    ⟨.getConnectionsForRequest request, candidates⟩ ∈ trace →
      ∃ before sending after result, trace = before ++ (sending ++ after) ∧
        (sendRequest settings request).Reaches sending (.ret result) ∧
          ∀ e ∈ before ++ after, e.1.Apart

section
variable {α : Type} {settings : SendSettings} {ctx : CommandProcessorContext} {command : Command}

theorem asksOnce_of_uses {p : Proc α} (hp : p.Uses Call.Apart) : AsksOnce settings p :=
  fun _ _ _ _ h hmem => (hp.of_mem h _ hmem).elim

/-- A call before it. -/
theorem AsksOnce.call {c : Call} {next : c.Reply → Proc α} (hc : c.Apart)
    (h : ∀ r, AsksOnce settings (next r)) : AsksOnce settings (.call c next) := by
  intro trace a request candidates hreaches hmem
  rcases reaches_call.mp hreaches with ⟨-, heq⟩ | ⟨r, rest, rfl, hrest⟩
  · cases heq
  · rcases List.mem_cons.mp hmem with heq | hmem
    · cases heq
      exact hc.elim
    · obtain ⟨before, sending, after, result, rfl, hsending, hapart⟩ :=
        h r rest a request candidates hrest hmem
      exact ⟨⟨c, r⟩ :: before, sending, after, result, rfl, hsending,
        List.forall_mem_cons.mpr ⟨hc, hapart⟩⟩

/-- A part before it that sends no request. -/
theorem AsksOnce.bind {β : Type} {p : Proc β} {f : β → Proc α} (hp : p.Uses Call.Apart)
    (h : ∀ b, AsksOnce settings (f b)) : AsksOnce settings (p >>= f) := by
  induction p with
  | ret b => exact h b
  | call c next ih => exact .call hp.1 fun r => ih r (hp.2 r)

theorem Call.CleansUp.apart {c : Call} (h : c.CleansUp) : c.Apart := by
  cases c <;> first | exact trivial | exact h.elim

theorem addMapping_apart {id original : UInt32} :
    (Proc.addMapping id original).Uses Call.Apart := by
  refine Proc.addMapping_uses.mono fun c hc => ?_
  rcases hc with hclean | rfl
  · exact hclean.apart
  · exact trivial

theorem prepareForAnswer_apart {id : UInt32} {connectionId host realm : String} :
    (Proc.prepareForAnswer id connectionId host realm).Uses Call.Apart := by
  refine Proc.prepareForAnswer_uses.mono fun c hc => ?_
  rcases hc with hclean | ⟨timeout, rfl⟩
  · exact hclean.apart
  · exact trivial

theorem asksOnce_sendRequest {f : Except String Command → Proc α}
    (hf : ∀ result, (f result).Uses Call.Apart) :
    AsksOnce settings (sendRequest settings command >>= f) := by
  intro trace a request candidates h hmem
  obtain ⟨first, second, result, rfl, hfirst, hsecond⟩ := Reaches.bind_ret h
  have hafter := (hf result).of_mem hsecond
  rcases List.mem_append.mp hmem with hmem | hmem
  · -- connections are asked for with the first call only
    have hrequest : request = command := by
      rcases reaches_call.mp hfirst with ⟨rfl, -⟩ | ⟨found, rest, rfl, hrest⟩
      · exact absurd hmem List.not_mem_nil
      rcases List.mem_cons.mp hmem with heq | hlater
      · cases heq
        rfl
      match found with
      | .error e =>
        obtain ⟨rfl, -⟩ := reaches_ret.mp hrest
        exact absurd hlater List.not_mem_nil
      | .ok connections =>
        rcases reaches_call.mp hrest with ⟨rfl, -⟩ | ⟨taken, rest', rfl, hrest'⟩
        · exact absurd hlater List.not_mem_nil
        rcases List.mem_cons.mp hlater with heq | hlast
        · exact absurd (congrArg Sigma.fst heq) (by simp)
        have hvia : (sendRequestVia settings command (taken + settings.totalTimeout)
          connections).Reaches rest' (.ret result) := hrest'
        exact ((sendRequestVia_uses connections).of_mem hvia _ hlast).elim
    subst hrequest
    exact ⟨[], first, second, result, rfl, hfirst, hafter⟩
  · exact (hafter _ hmem).elim

theorem sendResponse_uses {connectionId host realm : String} :
    (sendResponse connectionId host realm command).Uses Call.Apart := by
  refine ⟨trivial, fun found => ?_⟩
  match found with
  | some connection => exact ⟨trivial, fun _ => trivial⟩
  | none =>
    refine ⟨trivial, fun found => ?_⟩
    match found with
    | some connection => exact ⟨trivial, fun _ => trivial⟩
    | none => exact trivial

theorem CommandProcessorContext.processCommand_asksOnce :
    AsksOnce settings (CommandProcessorContext.processCommand settings ctx command) := by
  unfold CommandProcessorContext.processCommand
  split
  · exact asksOnce_of_uses (sendResponse_uses.bind fun _ => trivial)
  · split
    · split
      · refine asksOnce_of_uses ⟨trivial, fun handled => ?_⟩
        match handled with
        | .ok (some answer) => exact sendResponse_uses.bind fun _ => trivial
        | .ok none | .error _ => exact trivial
      · refine .call trivial fun id => .bind (p := Proc.addMapping id _) addMapping_apart fun _ => ?_
        refine .bind prepareForAnswer_apart fun _ => asksOnce_sendRequest fun result => ?_
        match result with
        | .ok _ => exact trivial
        | .error _ => exact sendResponse_uses.bind fun _ => trivial
    · refine asksOnce_of_uses ⟨trivial, fun original => ⟨trivial, fun origin => ?_⟩⟩
      match origin with
      | none => exact trivial
      | some (connectionId, host, realm) =>
        show Program.Uses _ (ite _ _ _)
        split
        · exact trivial
        · refine sendResponse_uses.bind fun sent => ?_
          match sent with
          | .ok () | .error _ => exact trivial

theorem handleDiameterRequest_asksOnce {host realm : String} :
    AsksOnce settings (handleDiameterRequest settings host realm command) := by
  unfold handleDiameterRequest
  split
  · exact asksOnce_of_uses trivial
  · refine .call trivial fun hopByHopId => .call trivial fun endToEndId => ?_
    show AsksOnce settings (ite _ _ _)
    split
    · exact asksOnce_of_uses trivial
    · refine .bind prepareForAnswer_apart fun _ => asksOnce_sendRequest fun result => ?_
      match result with
      | .ok _ | .error _ => exact trivial

/-- Control messages are no requests that are sent. -/
theorem asksOnce_control {p : Proc α} (hp : p.Uses Call.Control) : AsksOnce settings p := by
  refine asksOnce_of_uses (hp.mono fun c hc => ?_)
  cases c with
  | getConnectionsForRequest _ | sendWithin _ _ _ => exact hc
  | _ => exact trivial

theorem Transport.processCommand_asksOnce (transport : Transport) :
    AsksOnce settings (transport.processCommand settings ctx command) := by
  cases transport with
  | tcpClient =>
    show AsksOnce settings (ite _ (ite _ _ _) (ite _ _ _))
    split_ifs
    · exact asksOnce_control writeControl_uses
    · exact asksOnce_of_uses trivial
    · exact asksOnce_control tcpClient_processDpr_uses
    · exact CommandProcessorContext.processCommand_asksOnce
  | tcpServer | sctpServer =>
    show AsksOnce settings (ite _ _ (ite _ _ _))
    split_ifs
    · exact asksOnce_control ⟨trivial, fun _ => trivial⟩
    · exact asksOnce_control tcpServer_processDpr_uses
    · exact CommandProcessorContext.processCommand_asksOnce
  | sctpClient =>
    show AsksOnce settings (ite _ (ite _ _ _) (ite _ _ _))
    split_ifs
    · exact asksOnce_control writeControl_uses
    · exact asksOnce_of_uses trivial
    · exact asksOnce_control ⟨trivial, fun _ => trivial⟩
    · exact CommandProcessorContext.processCommand_asksOnce
  | rest => exact handleDiameterRequest_asksOnce

theorem Work.program_asksOnce (w : Work) : AsksOnce w.settings w.program := by
  unfold Work.program
  split
  · exact w.transport.processCommand_asksOnce
  · cases hsend : w.transport.sendDwr w.context with
    | none => exact asksOnce_of_uses trivial
    | some p =>
      refine asksOnce_control ?_
      generalize w.transport = transport at hsend
      cases transport with
      | tcpClient | sctpClient =>
        obtain rfl := Option.some.inj hsend
        exact writeControl_uses
      | tcpServer | sctpServer | rest => cases hsend

end

namespace Journal

/-- **How a node sends requests.** In every run of a node, a job that has asked for the
connections of a request, for a peer or for a REST client, has sent it in one run of
`send_request`: to the candidates in their order, to each once at most and within the total
timeout, until a final answer comes; one redirect is followed, in the same way and the same time;
and nothing but these answers is returned. Otherwise the job sends no request. -/
theorem sendRequest_ends {s : Node} {g : Journal} {start k : Nat} {settings : SendSettings}
    {myHost myRealm : String} {labels : List Node.Label} {w : Work} {request : Command}
    {candidates : Except String (List Connection)}
    (hrun : run Node.journalStep (.new settings myHost myRealm start, empty) labels = some (s, g))
    (hw : g.works[k]? = some w) (hended : g.Ended s k)
    (hasked : ⟨.getConnectionsForRequest request, candidates⟩ ∈ g.trace k) :
    ∃ before sending after result, g.trace k = before ++ (sending ++ after) ∧
      SendRequestRun w.settings request sending result ∧ ∀ e ∈ before ++ after, e.1.Apart := by
  obtain ⟨_, hreaches⟩ := (tracks_of_run hrun).ended k w hw hended
  obtain ⟨before, sending, after, result, htrace, hsending, hapart⟩ :=
    w.program_asksOnce _ _ request candidates hreaches hasked
  have hclock := readings_pairwise k hrun
  rw [htrace, List.filterMap_append, List.filterMap_append, List.pairwise_append,
    List.pairwise_append] at hclock
  exact ⟨before, sending, after, result, htrace, sendRequestRun_of_reaches hsending hclock.2.1.1,
    hapart⟩

end Journal

namespace RedirectedSends

open Node.Sample

/-- The answer of a peer that redirects the request to the host `c`. -/
def redirect : Command :=
  { answer 0 with
    avps := [.fromUnsigned32 AvpCode.resultCode.asU32 0x40 none 3006,
      .fromUtf8String AvpCode.redirectHost.asU32 0x40 none "c"] }

/-- The host that it names is connected, too. -/
def replies : (c : Call) → c.Reply
  | .getConnectionsByHosts _ => some [connection "c"]
  | c => Node.Sample.replies "b" c

/-- A request is forwarded, redirected, sent once more and answered. -/
def labels : List Node.Label :=
  connect ++ .connect "c" .tcpServer "host.c" "realm.c" :: forward "a" "b" 7 ++
    [.deliver "b" redirect, .process "b", .run "b" replies, .run "b" replies] ++
    List.replicate 7 (.run "a" replies) ++
    [.deliver "c" (answer 0), .process "c", .run "c" replies, .run "c" replies, .run "a" replies]

set_option maxRecDepth 100000 in
/-- The request is sent to the candidate, and to the host that it redirects it to. -/
theorem sendRequest_ends_redirected : ∃ s g w request before sending after result,
    run Node.journalStep (node, .empty) labels = some (s, g) ∧ g.works[0]? = some w ∧
      g.trace 0 = before ++ (sending ++ after) ∧
      (g.trace 0).filterMap Event.triedOn = [connection "b", connection "c"] ∧
      SendRequestRun w.settings request sending result := by
  have hview : ∃ s g w request candidates, run Node.journalStep (node, .empty) labels = some (s, g) ∧
      g.works[0]? = some w ∧
      (g.trace 0)[8]? = some ⟨.getConnectionsForRequest request, candidates⟩ ∧
      (g.trace 0).filterMap Event.triedOn = [connection "b", connection "c"] ∧
      g.latest "a" = some 0 ∧ (s.job "a").isNone = true :=
    ⟨_, _, _, _, _, rfl, rfl, rfl, rfl, rfl, rfl⟩
  obtain ⟨s, g, w, request, candidates, hrun, hw, hasked, htried, hlatest, hnone⟩ := hview
  have htracks := Journal.tracks_of_run hrun
  have hended : g.Ended s 0 := by
    refine ⟨htracks.known "a" 0 hlatest, fun id hid => ?_⟩
    rw [htracks.distinct "a" id 0 hlatest hid]
    exact Option.isNone_iff_eq_none.mp hnone
  obtain ⟨before, sending, after, result, htrace, hsending, -⟩ :=
    Journal.sendRequest_ends hrun hw hended (List.mem_of_getElem? hasked)
  exact ⟨s, g, w, request, before, sending, after, result, hrun, hw, htrace, htried, hsending⟩

end RedirectedSends

end RestDiameterBridge
