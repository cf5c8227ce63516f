import RestDiameterBridge.CommandHandler
import RestDiameterBridge.Transport.Correlation
import RestDiameterBridge.Transport.RedirectedSends
import RestDiameterBridge.Transport.RestToBackend

/-!
# RestDiameterBridge.RestResponse

What a REST client gets for a request (`handle_diameter_request` and `send_request` in
`src/http_rest_listener.rs`).

The answer, or what went wrong, is the response to the client; with a `callback-url` in the
body the client is told at once that its request is on the way, and the answer is posted to
that URL by a task of its own. `HttpRestListenerState.serve` is the handler with that task
behind it. Its calls are those of the Diameter side (`handleDiameterRequest`), so a REST job in
the journal of a node is a run of it (`exists_serves`), and `response_of_run` says for every run
of a node which answer a client is shown.
-/

namespace RestDiameterBridge

open Program Transition

/-! ### The handler -/

/-- What a client is sent: a status code and a text. -/
structure RestResponse where
  status : Nat
  text : String
  deriving Repr, DecidableEq

/-- A handler fails with a response, too. -/
abbrev RestResult := Except RestResponse RestResponse

/-- What is posted to a callback URL. -/
structure CallbackPost where
  url : String
  contentType : String
  message : String
  deriving Repr, DecidableEq

/-- How a handler ends: with a response, and perhaps a task that goes on behind it. -/
structure RestHandled where
  response : RestResult
  task : Option (Proc (OrPanic CallbackPost))

/-- What comes of a request: the response, unless the handler panics, and what is posted to
the callback URL. -/
structure Served where
  response : Option RestResult
  post : Option CallbackPost

/-- The listener, as its handlers see it. -/
structure HttpRestListenerState where
  host : String
  realm : String
  dictionaries : Dictionaries
  printJson : Json → String
  settings : SendSettings
  /-- Do messages of level `info` go to the log? -/
  logsInfo : Bool

namespace HttpRestListenerState

/-- A command as JSON. -/
def toJson (l : HttpRestListenerState) (command : Command) : OrPanic Json :=
  command.toJson l.dictionaries.fmt.toFormats l.dictionaries.commandMap l.dictionaries.avpMap

/-- The response that an outcome of `send_request` makes. -/
def respond (l : HttpRestListenerState) : Except String Command → OrPanic RestResult
  | .ok answer => (l.toJson answer).map fun json => .ok ⟨200, l.printJson json⟩
  | .error e => some (.error ⟨503, s!"Failed to send Diameter command: {e}"⟩)

/-- `HttpRestListener::send_request`. The request is written to the log as JSON first. -/
def sendRequest (l : HttpRestListenerState) (command : Command) : Proc (OrPanic RestResult) :=
  if l.logsInfo ∧ (l.toJson command).isNone then return none
  else do
    let result ← RestDiameterBridge.sendRequest l.settings command
    return l.respond result

/-- What is posted to the callback URL. -/
def callbackPost (url : String) : RestResult → CallbackPost
  | .ok response => ⟨url, "application/json", response.text⟩
  | .error response => ⟨url, "text/plain", s!"Failed to route diameter message: {response.text}"⟩

/-- The URL in the body to which the answer is posted. -/
def callbackUrl (obj : List (String × Json)) : String :=
  ((Json.get obj "callback-url").bind Json.asStr).getD ""

/-- The handler of a REST request. -/
def handleDiameterRequest (l : HttpRestListenerState) (body : String) : Proc (OrPanic RestHandled) :=
  let reject (text : String) : Proc (OrPanic RestHandled) := return some ⟨.error ⟨400, text⟩, none⟩
  match l.dictionaries.fmt.parseJson body with
  | .error _ => reject "Invalid JSON body"
  | .ok v =>
      match Command.fromJsonValue l.dictionaries.fmt.toTextFormats l.dictionaries.commandMap
          l.dictionaries.avpMap v with
      | none => return none
      | some (.error e) => reject s!"Invalid diameter message: {e}"
      | some (.ok command) =>
          if command.getDestinationHost.isNone ∨ command.getDestinationRealm.isNone then
            reject "Diameter message must include Destination-Host and Destination-Realm"
          else do
            let command := command.setOriginHost l.host
            let command := command.setOriginRealm l.realm
            let hopByHopId ← await .nextId
            let endToEndId ← await .nextEndToEndId
            let command := { command with hopByHopId, endToEndId }
            if !command.isRequest then reject "Received Diameter message is not a request"
            else
              Proc.prepareForAnswer command.hopByHopId "" l.host l.realm
              match v with
              | .object obj =>
                  if callbackUrl obj ≠ "" then
                    let task : Proc (OrPanic CallbackPost) := do
                      return (← l.sendRequest command).map (callbackPost (callbackUrl obj))
                    return some ⟨.ok ⟨200, "Message sent, response will be sent to callback URL"⟩,
                      some task⟩
                  else return (← l.sendRequest command).map fun response => ⟨response, none⟩
              | _ => reject "JSON body must be an object"

/-- The handler, and the task it leaves behind. -/
def serve (l : HttpRestListenerState) (body : String) : Proc Served := do
  match ← l.handleDiameterRequest body with
  | none => return ⟨none, none⟩
  | some ⟨response, none⟩ => return ⟨some response, none⟩
  | some ⟨response, some task⟩ => return ⟨some response, ← task⟩

/-! ### The runs of the handler -/

/-- What comes of an outcome of `send_request`. -/
def served (url : String) (result : OrPanic RestResult) : Served :=
  if url ≠ "" then
    ⟨some (.ok ⟨200, "Message sent, response will be sent to callback URL"⟩),
      result.map (callbackPost url)⟩
  else ⟨result, none⟩

/-- The handler from the command on. -/
def serveCommand (l : HttpRestListenerState) (url : String) (command : Command) : Proc Served :=
  if command.getDestinationHost.isNone ∨ command.getDestinationRealm.isNone then
    return ⟨some (.error
      ⟨400, "Diameter message must include Destination-Host and Destination-Realm"⟩), none⟩
  else do
    let hopByHopId ← await .nextId
    let endToEndId ← await .nextEndToEndId
    if !command.isRequest then
      return ⟨some (.error ⟨400, "Received Diameter message is not a request"⟩), none⟩
    else
      Proc.prepareForAnswer hopByHopId "" l.host l.realm
      let result ← l.sendRequest (command.issued l.host l.realm hopByHopId endToEndId)
      return served url result

/-- A body that stands for a command, and its callback URL. -/
structure Reads (l : HttpRestListenerState) (body url : String) (command : Command) : Prop where
  object : ∃ obj, l.dictionaries.fmt.parseJson body = .ok (.object obj) ∧ url = callbackUrl obj ∧
    Command.fromJsonValue l.dictionaries.fmt.toTextFormats l.dictionaries.commandMap
      l.dictionaries.avpMap (.object obj) = some (.ok command)

section
variable {l : HttpRestListenerState} {body url : String} {command : Command}

theorem serve_eq (h : l.Reads body url command) : l.serve body = l.serveCommand url command := by
  obtain ⟨obj, hparse, rfl, hcommand⟩ := h.object
  unfold serve handleDiameterRequest serveCommand
  simp only [hparse, hcommand]
  split
  · rfl
  · refine congrArg (Program.call Call.nextId) (funext fun hopByHopId => ?_)
    refine congrArg (Program.call Call.nextEndToEndId) (funext fun endToEndId => ?_)
    have hkind : (command.issued l.host l.realm hopByHopId endToEndId).isRequest =
        command.isRequest := Command.isRequest_setOrigin
    show Program.bind (ite ((!(command.issued l.host l.realm hopByHopId endToEndId).isRequest) =
      true) _ _) _ = ite ((!command.isRequest) = true) _ _
    rw [hkind]
    split
    · rfl
    · refine (bind_assoc _ _ _).trans (congrArg
        (Proc.prepareForAnswer hopByHopId "" l.host l.realm >>= ·) (funext fun _ => ?_))
      show Program.bind (ite (callbackUrl obj ≠ "") _ _) _ = _
      by_cases hurl : callbackUrl obj ≠ ""
      · rw [if_pos hurl]
        refine (bind_assoc _ _ _).trans (congrArg (l.sendRequest _ >>= ·) (funext fun result => ?_))
        simp only [served, if_pos hurl]
        rfl
      · rw [if_neg hurl]
        refine (bind_assoc _ _ _).trans (congrArg (l.sendRequest _ >>= ·) (funext fun result => ?_))
        simp only [served, if_neg hurl]
        cases result <;> rfl

/-- Nothing that is needed for the log panics. -/
def LogsSafely (l : HttpRestListenerState) (command : Command) : Prop :=
  ∀ hopByHopId endToEndId, l.logsInfo = true →
    (l.toJson (command.issued l.host l.realm hopByHopId endToEndId)).isSome

/-- There is no destination to send the command to. -/
def LacksDestination (command : Command) : Prop :=
  command.getDestinationHost.isNone ∨ command.getDestinationRealm.isNone

/-- The runs of the handler for a command, and what comes of them. -/
inductive CommandRun (l : HttpRestListenerState) (url : String) (command : Command) :
    List Event → Served → Prop
  | noDestination : LacksDestination command →
      CommandRun l url command [] ⟨some (.error
        ⟨400, "Diameter message must include Destination-Host and Destination-Realm"⟩), none⟩
  | noRequest {hopByHopId endToEndId : UInt32} : ¬LacksDestination command →
      command.isRequest = false →
      CommandRun l url command [⟨.nextId, hopByHopId⟩, ⟨.nextEndToEndId, endToEndId⟩]
        ⟨some (.error ⟨400, "Received Diameter message is not a request"⟩), none⟩
  /-- The request cannot be written to the log, and is not sent. -/
  | unlogged {hopByHopId endToEndId : UInt32} {preparing : List Event} :
      ¬LacksDestination command → command.isRequest = true →
      (Proc.prepareForAnswer hopByHopId "" l.host l.realm).Reaches preparing (.ret ()) →
      l.logsInfo = true → l.toJson (command.issued l.host l.realm hopByHopId endToEndId) = none →
      CommandRun l url command
        (⟨.nextId, hopByHopId⟩ :: ⟨.nextEndToEndId, endToEndId⟩ :: preparing) (served url none)
  | sent {hopByHopId endToEndId : UInt32} {preparing trace : List Event}
      {result : Except String Command} : ¬LacksDestination command → command.isRequest = true →
      (Proc.prepareForAnswer hopByHopId "" l.host l.realm).Reaches preparing (.ret ()) →
      SendRequestRun l.settings (command.issued l.host l.realm hopByHopId endToEndId) trace result →
      CommandRun l url command
        (⟨.nextId, hopByHopId⟩ :: ⟨.nextEndToEndId, endToEndId⟩ :: (preparing ++ trace))
        (served url (l.respond result))

variable {trace : List Event} {out : Served}

theorem serveCommand_ends (h : (l.serveCommand url command).Reaches trace (.ret out))
    (hclock : (trace.filterMap Event.reading).Pairwise (· ≤ ·)) :
    l.CommandRun url command trace out := by
  unfold serveCommand at h
  split at h
  · rename_i hdestination
    obtain ⟨rfl, heq⟩ := reaches_ret.mp h
    cases heq
    exact .noDestination hdestination
  · rename_i hdestination
    rcases reaches_call.mp h with ⟨-, heq⟩ | ⟨hopByHopId, rest, rfl, hrest⟩
    · cases heq
    rcases reaches_call.mp hrest with ⟨-, heq⟩ | ⟨endToEndId, rest', rfl, hrest'⟩
    · cases heq
    replace hrest' : Program.Reaches (ite ((!command.isRequest) = true) _ _) rest' (.ret out) :=
      hrest'
    split at hrest'
    · rename_i hkind
      obtain ⟨rfl, heq⟩ := reaches_ret.mp hrest'
      cases heq
      exact .noRequest hdestination (by simpa using hkind)
    · rename_i hnot
      have hkind : command.isRequest = true := by simpa using hnot
      obtain ⟨preparing, rest'', ⟨⟩, rfl, hpreparing, hrest''⟩ := Reaches.bind_ret hrest'
      obtain ⟨first, second, result, rfl, hfirst, hsecond⟩ := Reaches.bind_ret
        (p := l.sendRequest (command.issued l.host l.realm hopByHopId endToEndId))
        (f := fun result => .ret (served url result)) hrest''
      obtain ⟨rfl, heq⟩ := reaches_ret.mp hsecond
      cases heq
      rw [List.append_nil] at hclock ⊢
      unfold sendRequest at hfirst
      split at hfirst
      · rename_i hlog
        obtain ⟨rfl, heq⟩ := reaches_ret.mp hfirst
        cases heq
        rw [List.append_nil]
        exact .unlogged hdestination hkind hpreparing hlog.1 (Option.isNone_iff_eq_none.mp hlog.2)
      · obtain ⟨sending, last, outcome, rfl, hsending, hlast⟩ := Reaches.bind_ret hfirst
        obtain ⟨rfl, heq⟩ := reaches_ret.mp hlast
        cases heq
        rw [List.append_nil] at hclock ⊢
        have hreadings : sending.Sublist
            (⟨.nextId, hopByHopId⟩ :: ⟨.nextEndToEndId, endToEndId⟩ :: (preparing ++ sending)) :=
          ((List.sublist_append_right preparing sending).cons _).cons _
        exact .sent hdestination hkind hpreparing
          (sendRequestRun_of_reaches hsending (hclock.sublist (hreadings.filterMap _)))

/-- A run of the Diameter side is one of the handler. -/
theorem exists_serves {result : Except String Unit} (hlog : l.LogsSafely command)
    (h : (RestDiameterBridge.handleDiameterRequest l.settings l.host l.realm command).Reaches trace
      (.ret result)) : ∃ out, (l.serveCommand url command).Reaches trace (.ret out) := by
  unfold serveCommand
  unfold RestDiameterBridge.handleDiameterRequest at h
  split
  · rename_i hdestination
    rw [if_pos hdestination] at h
    obtain ⟨rfl, -⟩ := reaches_ret.mp h
    exact ⟨_, .refl _⟩
  · rename_i hdestination
    rw [if_neg hdestination] at h
    rcases reaches_call.mp h with ⟨-, heq⟩ | ⟨hopByHopId, rest, rfl, hrest⟩
    · cases heq
    rcases reaches_call.mp hrest with ⟨-, heq⟩ | ⟨endToEndId, rest', rfl, hrest'⟩
    · cases heq
    replace hrest' : Program.Reaches
      (ite ((!(command.issued l.host l.realm hopByHopId endToEndId).isRequest) = true) _ _) rest'
      (.ret result) := hrest'
    have hkind : (command.issued l.host l.realm hopByHopId endToEndId).isRequest =
        command.isRequest := Command.isRequest_setOrigin
    rw [hkind] at hrest'
    suffices hnumbered : ∃ out, Program.Reaches (ite ((!command.isRequest) = true) _ _) rest'
        (.ret out) by
      obtain ⟨out, hout⟩ := hnumbered
      exact ⟨out, .cons (.cons hout)⟩
    split at hrest'
    · rename_i hnot
      rw [if_pos hnot]
      obtain ⟨rfl, -⟩ := reaches_ret.mp hrest'
      exact ⟨_, .refl _⟩
    · rename_i hnot
      rw [if_neg hnot]
      obtain ⟨preparing, rest'', ⟨⟩, rfl, hpreparing, hrest''⟩ := Reaches.bind_ret hrest'
      obtain ⟨first, second, outcome, rfl, hfirst, hsecond⟩ := Reaches.bind_ret
        (p := RestDiameterBridge.sendRequest l.settings
          (command.issued l.host l.realm hopByHopId endToEndId)) hrest''
      have hlast : second = [] := by
        match outcome, hsecond with
        | .ok _, hsecond | .error _, hsecond => exact (reaches_ret.mp hsecond).1
      subst hlast
      have hsends : l.sendRequest (command.issued l.host l.realm hopByHopId endToEndId) =
          RestDiameterBridge.sendRequest l.settings
            (command.issued l.host l.realm hopByHopId endToEndId) >>= fun result =>
              return l.respond result := by
        refine if_neg fun hpanic => ?_
        have hsome := hlog hopByHopId endToEndId hpanic.1
        rw [Option.isNone_iff_eq_none.mp hpanic.2] at hsome
        cases hsome
      rw [hsends, bind_assoc]
      exact ⟨_, hpreparing.bind (hfirst.bind (.refl _))⟩

end

end HttpRestListenerState

/-! ### The clients of a node -/

/-- The client is shown the text as an answer: in the response, or at the callback URL. -/
def Served.Shows (out : Served) (url text : String) : Prop :=
  (url = "" ∧ out.response = some (.ok ⟨200, text⟩)) ∨
    out.post = some ⟨url, "application/json", text⟩

/-- The job is at a request of a client of the listener. -/
structure Work.IsRequestOf (w : Work) (l : HttpRestListenerState) (body url : String)
    (request : Command) : Prop where
  transport : w.transport = .rest
  command : w.command = some request
  settings : w.settings = l.settings
  host : w.context.myHost = l.host
  realm : w.context.myRealm = l.realm
  reads : l.Reads body url request
  logs : l.LogsSafely request

namespace HttpRestListenerState

variable {l : HttpRestListenerState} {body url text : String} {command : Command}
  {trace : List Event} {out : Served}

theorem respond_ok {result : Except String Command} {response : RestResponse}
    (h : l.respond result = some (.ok response)) : ∃ answer json, result = .ok answer ∧
      l.toJson answer = some json ∧ response = ⟨200, l.printJson json⟩ := by
  cases result with
  | ok answer =>
    obtain ⟨json, hjson, heq⟩ := Option.map_eq_some_iff.mp h
    obtain rfl := Except.ok.inj heq
    exact ⟨answer, json, rfl, hjson, rfl⟩
  | error e => cases h

/-- An outcome is shown only if it is an answer. -/
theorem exists_answer_of_shows {result : Except String Command}
    (h : (served url (l.respond result)).Shows url text) :
    ∃ answer json, result = .ok answer ∧ l.toJson answer = some json ∧ text = l.printJson json := by
  have hresponse : ∃ response, l.respond result = some (.ok response) ∧ response.text = text := by
    unfold served at h
    split at h
    · rename_i hurl
      rcases h with ⟨hempty, -⟩ | hpost
      · exact absurd hempty hurl
      · obtain ⟨r, hr, heq⟩ := Option.map_eq_some_iff.mp hpost
        cases r with
        | ok response => exact ⟨response, hr, congrArg CallbackPost.message heq⟩
        | error response =>
          have hplain : "text/plain" = "application/json" := congrArg CallbackPost.contentType heq
          exact absurd hplain (by decide)
    · rcases h with ⟨-, hresponse⟩ | hpost
      · exact ⟨⟨200, text⟩, hresponse, rfl⟩
      · cases hpost
  obtain ⟨response, hrespond, rfl⟩ := hresponse
  obtain ⟨answer, json, hresult, hjson, rfl⟩ := respond_ok hrespond
  exact ⟨answer, json, hresult, hjson, rfl⟩

/-- Only an answer is shown, as JSON. -/
theorem CommandRun.shown (h : l.CommandRun url command trace out) (hshows : out.Shows url text) :
    ∃ answer json id deadline info, l.toJson answer = some json ∧ text = l.printJson json ∧
      answer.isFinal l.settings = true ∧ ⟨.nextId, id⟩ ∈ trace ∧
        ⟨.notified deadline id info, some (some answer)⟩ ∈ trace := by
  cases h with
  | noDestination _ => rcases hshows with ⟨-, heq⟩ | heq <;> cases heq
  | noRequest _ _ => rcases hshows with ⟨-, heq⟩ | heq <;> cases heq
  | unlogged _ _ _ _ _ =>
    unfold served at hshows
    split at hshows
    · rename_i hurl
      rcases hshows with ⟨hempty, -⟩ | heq
      · exact absurd hempty hurl
      · cases heq
    · rcases hshows with ⟨-, heq⟩ | heq <;> cases heq
  | @sent hopByHopId endToEndId preparing rest result _ _ _ hrun =>
    obtain ⟨answer, json, rfl, hjson, rfl⟩ := exists_answer_of_shows hshows
    obtain ⟨hfinal, deadline, info, hwaited⟩ := hrun.answered
    have hmem : ⟨.notified deadline hopByHopId info, some (some answer)⟩ ∈ rest := hwaited
    exact ⟨answer, json, hopByHopId, deadline, info, hjson, rfl, hfinal, by simp,
      by simp [hmem]⟩

theorem served_shows {json : Json} {answer : Command} (hjson : l.toJson answer = some json) :
    (served url (l.respond (.ok answer))).Shows url (l.printJson json) := by
  have hrespond : l.respond (.ok answer) = some (.ok ⟨200, l.printJson json⟩) := by
    rw [respond, hjson]
    rfl
  rw [hrespond, served]
  split
  · exact .inr rfl
  · rename_i hurl
    exact .inl ⟨not_not.mp hurl, rfl⟩

/-- The first final answer that comes in is shown, where no redirect is followed. -/
theorem CommandRun.shows {answer : Command} {json : Json} (h : l.CommandRun url command trace out)
    (hlog : l.LogsSafely command) (hstays : ∀ redirect, ⟨.addRedirect redirect, ()⟩ ∉ trace)
    (hanswer : (trace.filterMap Event.answer).find? (·.isFinal l.settings) = some answer)
    (hjson : l.toJson answer = some json) : out.Shows url (l.printJson json) := by
  cases h with
  | noDestination _ => cases hanswer
  | noRequest _ _ => cases hanswer
  | @unlogged hopByHopId endToEndId preparing _ _ _ hinfo hnone =>
    have hsome := hlog hopByHopId endToEndId hinfo
    rw [hnone] at hsome
    cases hsome
  | @sent hopByHopId endToEndId preparing rest result _ _ hpreparing hrun =>
    have hquiet : preparing.filterMap Event.answer = [] := by
      refine List.filterMap_eq_nil_iff.mpr fun ⟨c, r⟩ he => ?_
      rcases Proc.prepareForAnswer_uses.of_mem hpreparing _ he with hclean | ⟨timeout, heq⟩
      · cases c <;> first | rfl | exact hclean.elim
      · cases heq
        rfl
    have hnumbered : (⟨.nextId, hopByHopId⟩ :: ⟨.nextEndToEndId, endToEndId⟩ ::
        (preparing ++ rest)).filterMap Event.answer = rest.filterMap Event.answer := by
      show (preparing ++ rest).filterMap Event.answer = _
      rw [List.filterMap_append, hquiet, List.nil_append]
    rw [hnumbered] at hanswer
    obtain rfl := hrun.result_eq (fun redirect hmem => hstays redirect (by simp [hmem])) hanswer
    exact served_shows hjson

end HttpRestListenerState

namespace Journal

variable {s : Node} {g : Journal} {start k : Nat} {w : Work}

/-- The answer to the request of a job: it came in under the id that the job has drawn, which no
other job has, and it was taken in for this node itself. -/
structure AnswersJob (g : Journal) (k : Nat) (host realm : String) (answer : Command) : Prop where
  drawn : ⟨.nextId, answer.hopByHopId⟩ ∈ g.trace k
  only : ∀ k', ⟨.nextId, answer.hopByHopId⟩ ∈ g.trace k' → k' = k
  received : ∃ j w message, g.works[j]? = some w ∧ w.command = some message ∧
    message.isRequest = false ∧ answer = message.removeRecordRoute w.context.myHost ∧
      ⟨.answerReceived answer, some ("", host, realm)⟩ ∈ g.trace j

/-- An answer that a job on a REST request has waited for. -/
theorem Tracks.answersJob (h : g.Tracks start s) (hw : g.works[k]? = some w)
    (hfew : (g.entries.filterMap Entry.drawn).length ≤ 2 ^ 32) (hrest : w.transport = .rest)
    {id : UInt32} {deadline info : Nat} {answer : Command} (hdrawn : ⟨.nextId, id⟩ ∈ g.trace k)
    (hwaited : ⟨.notified deadline id info, some (some answer)⟩ ∈ g.trace k) :
    g.AnswersJob k w.context.myHost w.context.myRealm answer := by
  obtain ⟨e, he, -, hevent⟩ := exists_of_mem_trace hwaited
  obtain ⟨before, after, hentries⟩ := List.append_of_mem he
  obtain ⟨rfl, e', he', origin, hreceived⟩ := h.waited hentries hevent
  have he'' : e' ∈ g.entries := by simp [hentries, he']
  obtain ⟨first, last, hbefore⟩ := List.append_of_mem he''
  -- the entry that it was taken in for is that of the job which drew the id
  obtain ⟨k', w', hw', rfl, hid, -⟩ := h.pending hbefore hreceived
  have hid' : ⟨.nextId, answer.hopByHopId⟩ ∈ g.trace k' := by
    rw [trace, hbefore, trace_append]
    exact List.mem_append_left _ hid
  obtain rfl := h.drawn_unique hfew hdrawn hid'
  obtain rfl := Option.some.inj (hw.symm.trans hw')
  obtain ⟨j, v, hj, hv⟩ := h.exists_work he'' (by simp [Entry.drawn, hreceived])
  have hmem : ⟨.answerReceived answer, some w.origin⟩ ∈ g.trace j := by
    have hevent' := mem_trace he'' hj
    rwa [hreceived] at hevent'
  obtain ⟨p, hpath⟩ := h.path hv (List.append_nil _).symm
  obtain ⟨message, hmessage, hkind, hanswering⟩ := (Work.performs hpath).answering hmem trivial
  refine ⟨hdrawn, fun j' hj' => h.drawn_unique hfew hdrawn hj', j, v, message, hv, hmessage, hkind,
    (hanswering.of_received hmem).1, ?_⟩
  rwa [Work.origin, if_pos hrest] at hmem

/-- **What a client is shown.** In every run of a node, what a client gets for its request is what
the handler gives in a run of its own; and if that is an answer, it is the JSON of one that came
in from a peer under the id drawn for this request, and with a result code that is final. -/
theorem response_of_run {settings : SendSettings} {myHost myRealm : String}
    {labels : List Node.Label} {l : HttpRestListenerState} {body url : String} {request : Command}
    (hrun : run Node.journalStep (.new settings myHost myRealm start, empty) labels = some (s, g))
    (hfew : (g.entries.filterMap Entry.drawn).length ≤ 2 ^ 32) (hw : g.works[k]? = some w)
    (hrequest : w.IsRequestOf l body url request) (hended : g.Ended s k) :
    ∃ out, (l.serve body).Reaches (g.trace k) (.ret out) ∧ l.CommandRun url request (g.trace k) out ∧
      ∀ text, out.Shows url text → ∃ answer json, g.AnswersJob k l.host l.realm answer ∧
        l.toJson answer = some json ∧ text = l.printJson json ∧
          answer.isFinal l.settings = true := by
  have h := tracks_of_run hrun
  obtain ⟨result, hreaches⟩ := h.ended k w hw hended
  have hprogram : w.program =
      handleDiameterRequest l.settings l.host l.realm request := by
    rw [Work.program, hrequest.command, hrequest.transport, hrequest.settings, ← hrequest.host,
      ← hrequest.realm]
    rfl
  rw [hprogram] at hreaches
  obtain ⟨out, hserved⟩ := l.exists_serves hrequest.logs hreaches
  have hcourse := l.serveCommand_ends hserved (readings_pairwise k hrun)
  refine ⟨out, ?_, hcourse, fun text hshows => ?_⟩
  · rw [l.serve_eq hrequest.reads]
    exact hserved
  · obtain ⟨answer, json, id, deadline, info, hjson, htext, hfinal, hdrawn, hwaited⟩ :=
      hcourse.shown hshows
    have hanswers := h.answersJob hw hfew hrequest.transport hdrawn hwaited
    rw [hrequest.host, hrequest.realm] at hanswers
    exact ⟨answer, json, hanswers, hjson, htext, hfinal⟩

end Journal

/-! ### A request and its answer -/

namespace RestResponse

/-- A text without control characters, between quotation marks. -/
def quoted (s : String) : String :=
  "\"" ++ String.join (s.toList.map fun c =>
    if c = '"' ∨ c = '\\' then String.ofList ['\\', c] else String.ofList [c]) ++ "\""

mutual

/-- JSON without blanks. -/
def compact : Json → String
  | .null => "null"
  | .bool value => if value then "true" else "false"
  | .number (.int value) => toString value
  | .number (.float value) => toString value
  | .string value => quoted value
  | .array values => "[" ++ ",".intercalate (compactValues values) ++ "]"
  | .object members => "\x7b" ++ ",".intercalate (compactMembers members) ++ "\x7d"

def compactValues : List Json → List String
  | [] => []
  | value :: values => compact value :: compactValues values

def compactMembers : List (String × Json) → List String
  | [] => []
  | (name, value) :: members => (quoted name ++ ":" ++ compact value) :: compactMembers members

end

/-- What a client posts. -/
def bodyText : String :=
  "\x7b\"Destination-Host\":\"peer\",\"Destination-Realm\":\"realm\",\"Origin-Host\":\"me\"," ++
    "\"code\":316\x7d"

def listener : HttpRestListenerState where
  host := "gateway"
  realm := "example.org"
  dictionaries :=
    { fmt := { standardTexts true with
        parseJson := RestToBackend.parseOnly bodyText RestToBackend.body }
      commandMap := RestToBackend.commandMap
      avpMap := .new [] }
  printJson := compact
  settings := ⟨1000, 5000, []⟩
  logsInfo := false

/-- Requests are sent to the peer. -/
def replies : (c : Call) → c.Reply
  | .getConnectionsForRequest _ => .ok [Node.Sample.connection "b"]
  | .sendWithin .. => some (.ok ())
  | _ => default

/-- The answer of the peer. -/
def answer : Command := { RestToBackend.read with flags := 0x40 }

/-- A client posts its request, and the peer answers it. -/
def labels : List Node.Label :=
  [.connect "b" .tcpServer "peer" "realm", .connect "r" .rest "" "",
    .deliver "r" RestToBackend.posted, .process "r"] ++ List.replicate 12 (.run "r" replies) ++
  [.deliver "b" answer, .process "b", .run "b" replies, .run "b" replies, .run "r" replies]

/-- What the client gets. -/
def answerText : String :=
  "\x7b\"Origin-Host\":\"me\",\"Result-Code\":2001,\"application_id\":4,\"code\":316," ++
    "\"end_to_end_id\":0,\"flags\":\"P\",\"hop_by_hop_id\":0\x7d"

theorem reads_bodyText : listener.Reads bodyText "" RestToBackend.posted :=
  ⟨RestToBackend.body, RestToBackend.parseOnly_text bodyText RestToBackend.body, rfl,
    RestToBackend.fromJsonValue_body⟩

theorem toJson_answer : ∃ json, listener.toJson answer = some json ∧ compact json = answerText := by
  have horigin : Command.avpJson (standardTexts true).toFormats (.new [])
      (RestToBackend.text 264 "me").toAvp = some ("Origin-Host", .string "me") := by
    have hnamed : (AvpMap.new []).getByCode 264 = some RestToBackend.routes.originHost := rfl
    have hread : String.fromUTF8? ⟨"me".toUTF8.data.toList.toArray⟩ = some "me" :=
      Avp.fromUTF8_eq_some_iff.mpr rfl
    have hscalar : scalarToValue (standardTexts true).toFormats .diameterIdentity
        (RestToBackend.text 264 "me").toAvp = some (some (.string "me")) :=
      congrArg (fun s => some (Option.map Json.string s)) hread
    rw [Command.avpJson, avpToNameValue_of_scalar hnamed (by decide)]
    exact congrArg (fun o => Option.map _ (Option.map _ o)) hscalar
  have hresult : Command.avpJson (standardTexts true).toFormats (.new [])
      RestToBackend.success.toAvp = some ("Result-Code", .ofInt 2001) := by
    have hnamed : (AvpMap.new []).getByCode 268 =
        some ⟨"Result-Code", 268, .unsigned32, true, none⟩ := rfl
    rw [Command.avpJson, avpToNameValue_of_scalar hnamed (by decide)]
    rfl
  have hshown : answer.avps.mapM (Command.avpJson (standardTexts true).toFormats (.new [])) =
      some [("Origin-Host", .string "me"), ("Result-Code", .ofInt 2001)] := by
    show [(RestToBackend.text 264 "me").toAvp, RestToBackend.success.toAvp].mapM _ = _
    simp [List.mapM_cons, horigin, hresult]
  refine ⟨.object (Json.collectAll (answer.headerJson RestToBackend.commandMap)
    [("Origin-Host", .string "me"), ("Result-Code", .ofInt 2001)]), ?_, by decide +kernel⟩
  exact congrArg (Option.map _) hshown

def addsRedirect (e : Event) : Bool :=
  match e with
  | ⟨.addRedirect _, _⟩ => true
  | _ => false

/-- The client gets the answer that has come in. -/
theorem response_of_run_answered : ∃ s g out,
    run Node.journalStep (.new listener.settings "gateway" "example.org" 0, .empty) labels =
        some (s, g) ∧ (listener.serve bodyText).Reaches (g.trace 0) (.ret out) ∧
      listener.CommandRun "" RestToBackend.posted (g.trace 0) out ∧ out.Shows "" answerText ∧
      ∃ answer json, g.AnswersJob 0 "gateway" "example.org" answer ∧
        listener.toJson answer = some json ∧ answerText = compact json ∧
          answer.isFinal listener.settings = true := by
  have hview : (run Node.journalStep (.new listener.settings "gateway" "example.org" 0, .empty)
      labels).any (fun sg => decide ((sg.2.entries.filterMap Entry.drawn).length ≤ 2 ^ 32) &&
        decide (sg.2.latest "r" = some 0) && (sg.1.job "r").isNone &&
          (sg.2.trace 0).all fun e => !addsRedirect e) = true := by
    decide +kernel
  obtain ⟨⟨s, g⟩, hrun, hview⟩ := (Option.any_eq_true _ _).mp hview
  simp only [Bool.and_eq_true, decide_eq_true_eq, Option.isNone_iff_eq_none] at hview
  obtain ⟨⟨⟨hfew, hlatest⟩, hnone⟩, hdirect⟩ := hview
  have hworks : ((run Node.journalStep (.new listener.settings "gateway" "example.org" 0, .empty)
      labels).bind fun sg => sg.2.works[0]?) = some ⟨listener.settings, .rest,
        ⟨"r", "gateway", "example.org", "", ""⟩, some RestToBackend.posted⟩ := rfl
  have hanswer : ((run Node.journalStep (.new listener.settings "gateway" "example.org" 0, .empty)
      labels).bind fun sg => ((sg.2.trace 0).filterMap Event.answer).find?
        (·.isFinal listener.settings)) = some answer := rfl
  rw [hrun] at hworks hanswer
  have htracks := Journal.tracks_of_run hrun
  have hended : g.Ended s 0 := by
    refine ⟨(htracks.known "r" 0 hlatest), fun id hid => ?_⟩
    rw [htracks.distinct "r" id 0 hlatest hid]
    exact hnone
  have hlog : listener.LogsSafely RestToBackend.posted := fun _ _ hlog => by cases hlog
  obtain ⟨out, hserved, hcourse, hshown⟩ := Journal.response_of_run hrun hfew hworks
    ⟨rfl, rfl, rfl, rfl, rfl, reads_bodyText, hlog⟩ hended
  have hstays : ∀ redirect, ⟨.addRedirect redirect, ()⟩ ∉ g.trace 0 := fun redirect hmem => by
    have hnot := List.all_eq_true.mp hdirect _ hmem
    cases hnot
  obtain ⟨json, hjson, htext⟩ := toJson_answer
  have hshows : out.Shows "" answerText := htext ▸ hcourse.shows hlog hstays hanswer hjson
  exact ⟨s, g, out, hrun, hserved, hcourse, hshows, hshown answerText hshows⟩

end RestResponse

end RestDiameterBridge
