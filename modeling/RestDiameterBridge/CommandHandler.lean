import RestDiameterBridge.CommandFromJson
import RestDiameterBridge.Lib.Program

/-!
# RestDiameterBridge.CommandHandler

Requests addressed to this stack are handled by HTTP backends
(`src/transport/command_handler.rs`): each request processor that matches posts the request
as JSON to its URLs in turn, and the first body it gets becomes the answer.

`handleCommand_outcome` says what an exchange with the backends ends in: the last reply
counts if it brings a body (`Decides`), and otherwise the request could not be delivered or
nobody took it.
-/

namespace RestDiameterBridge

open Bytes Program

/-- The formats, and the JSON reader. -/
structure HttpFormats extends TextFormats where
  parseJson : String → Except String Json

/-- A response of a backend. The body may turn out unreadable. -/
structure HttpResponse where
  status : Nat
  text : Except String String

/-- One await of the command handler: a JSON value posted to a URL, under a timeout. -/
inductive HttpCall
  | post (url : String) (timeout : Nat) (json : Json)

/-- The response, or what kept the request from being sent. -/
abbrev HttpCall.Reply : HttpCall → Type
  | post .. => Except String HttpResponse

/-- A part of the command handler. -/
abbrev HttpProc (α : Type) := Program HttpCall HttpCall.Reply α

/-- The dictionaries, and how texts are read and written. -/
structure Dictionaries where
  fmt : HttpFormats
  commandMap : CommandMap
  avpMap : AvpMap

/-- A request processor. No codes or no application ids stand for all. -/
structure RequestProcessor where
  commandCodes : List UInt32
  applicationIds : List UInt32
  urls : List String
  timeout : Nat

/-- The handler of a stack. -/
structure DefaultCommandHandler where
  requestProcessors : List RequestProcessor
  dictionaries : Dictionaries

/-- The object of a backend, under the code of the request if it says neither code nor name. -/
def withCode (request : Command) (obj : List (String × Json)) : List (String × Json) :=
  if (Json.get obj "code").isNone ∧ (Json.get obj "name").isNone then
    Json.insert obj "code" (Json.ofInt request.code.toNat)
  else obj

/-- What `create_answer` makes of the command it has read: ids, flags and origin are those
that fit the request. -/
def Command.answering (answer request : Command) (flags : UInt8) : Command :=
  let answer := { answer with
    hopByHopId := request.hopByHopId
    endToEndId := request.endToEndId
    flags := flags &&& ~~~CommandFlags.request.asU8 }
  let answer := if request.applicationId ≠ 0 then
    { answer with applicationId := request.applicationId } else answer
  let answer := match request.getDestinationRealm with
    | some realm => answer.setOriginRealm realm
    | none => answer
  match request.getDestinationHost with
  | some host => answer.setOriginHost host
  | none => answer

namespace RequestProcessor

/-- Is the request one for this processor? -/
def matchesCommand (p : RequestProcessor) (command : Command) : Bool :=
  (p.commandCodes.isEmpty || p.commandCodes.contains command.code) &&
    (p.applicationIds.isEmpty || p.applicationIds.contains command.applicationId)

/-- The answer in the body of a response. -/
def createAnswer (dict : Dictionaries) (response : String) (request : Command) :
    OrPanic (Except String Command) :=
  match dict.fmt.parseJson response with
  | .error e => some (.error
      s!"Failed to parse response JSON for request with code {request.code} and hop-by-hop ID {request.hopByHopId}: {e}")
  | .ok (.object obj) =>
      let obj := withCode request obj
      let flags := (((Json.get obj "flags").bind Json.asStr).bind
        (CommandFlags.u8FromStr dict.fmt.toTextFormats)).getD request.flags
      match Command.fromJsonValue dict.fmt.toTextFormats dict.commandMap dict.avpMap (.object obj) with
      | some (.ok answer) => some (.ok (answer.answering request flags))
      | some (.error _) => some (.error "Failed to create answer from response")
      | none => none
  | .ok _ => some (.error
      s!"Response is not a valid JSON object for request with code {request.code} and hop-by-hop ID {request.hopByHopId}: {response}")

/-- The loop of `send_request` over the URLs. -/
def sendRequestTo (dict : Dictionaries) (timeout : Nat) (request : Command) :
    List String → HttpProc (OrPanic (Except String Command))
  | [] => return some (.ok (request.createResponse.setResultCode 3002))
  | url :: urls => do
      match request.toJson dict.fmt.toFormats dict.commandMap dict.avpMap with
      | none => return none
      | some json =>
          match ← Program.perform (.post url timeout json) with
          | .ok response =>
              if 200 ≤ response.status ∧ response.status < 400 then
                match response.text with
                | .ok body => return createAnswer dict body request
                | .error _ => sendRequestTo dict timeout request urls
              else sendRequestTo dict timeout request urls
          | .error _ => sendRequestTo dict timeout request urls

/-- Post the request until a URL answers. -/
def sendRequest (p : RequestProcessor) (dict : Dictionaries) (request : Command) :
    HttpProc (OrPanic (Except String Command)) :=
  sendRequestTo dict p.timeout request p.urls

end RequestProcessor

namespace DefaultCommandHandler

/-- The loop of `handle_command` over the processors. -/
def handleWith (dict : Dictionaries) (command : Command) :
    List RequestProcessor → HttpProc (OrPanic (Except String (Option Command)))
  | [] => return some (.error
      s!"No processor found for command with hop-by-hop ID: {command.hopByHopId}")
  | p :: processors =>
      if p.matchesCommand command then do
        match ← p.sendRequest dict command with
        | some (.ok answer) => return some (.ok (some answer))
        | some (.error _) => handleWith dict command processors
        | none => return none
      else handleWith dict command processors

/-- Have the request answered by the first processor that can. -/
def handleCommand (handler : DefaultCommandHandler) (command : Command) :
    HttpProc (OrPanic (Except String (Option Command))) :=
  if command.isRequest then handleWith handler.dictionaries command handler.requestProcessors
  else return some (.ok none)

end DefaultCommandHandler

/-! ### What an exchange ends in -/

/-- The body that decides an exchange: that of the last response, if it was a good one. -/
def Decides (exchange : List (Sigma HttpCall.Reply)) (body : String) : Prop :=
  ∃ url timeout json response, exchange.getLast? = some ⟨.post url timeout json, .ok response⟩ ∧
    200 ≤ response.status ∧ response.status < 400 ∧ response.text = .ok body

section
variable {dict : Dictionaries} {request answer : Command} {exchange : List (Sigma HttpCall.Reply)}
  {body : String} {timeout : Nat}

theorem not_decides_nil : ¬Decides [] body := by
  intro h
  obtain ⟨_, _, _, _, hlast, -⟩ := h
  cases hlast

theorem decides_append (before : List (Sigma HttpCall.Reply)) (h : exchange ≠ []) :
    Decides (before ++ exchange) body ↔ Decides exchange body := by
  unfold Decides
  rw [List.getLast?_append_of_ne_nil _ h]

/-- An exchange decides on one body. -/
theorem Decides.unique {body' : String} (h : Decides exchange body) (h' : Decides exchange body') :
    body' = body := by
  obtain ⟨_, _, _, _, hlast, -, -, htext⟩ := h
  obtain ⟨_, _, _, _, hlast', -, -, htext'⟩ := h'
  rw [hlast] at hlast'
  cases hlast'
  rw [htext] at htext'
  cases htext'
  rfl

/-- What sending a request ends in: the answer in the body that decides, or none. -/
def Posted (dict : Dictionaries) (request : Command) (exchange : List (Sigma HttpCall.Reply))
    (a : OrPanic (Except String Command)) : Prop :=
  (∃ body, Decides exchange body ∧ a = RequestProcessor.createAnswer dict body request) ∨
    ((∀ body, ¬Decides exchange body) ∧
      (a = none ∨ a = some (.ok (request.createResponse.setResultCode 3002))))

/-- One more response that does not decide. -/
theorem Posted.cons {e : Sigma HttpCall.Reply} {a : OrPanic (Except String Command)}
    (hfailed : ∀ body, ¬Decides [e] body) (h : Posted dict request exchange a) :
    Posted dict request (e :: exchange) a := by
  by_cases hempty : exchange = []
  · subst hempty
    rcases h with ⟨body, hdecides, -⟩ | ⟨-, ha⟩
    · exact absurd hdecides not_decides_nil
    · exact .inr ⟨hfailed, ha⟩
  · have happend : ∀ body, Decides (e :: exchange) body ↔ Decides exchange body := fun body =>
      decides_append [e] hempty
    simpa only [Posted, happend] using h

theorem sendRequestTo_posted {urls : List String} {a : OrPanic (Except String Command)}
    (h : Reaches (RequestProcessor.sendRequestTo dict timeout request urls) exchange (.ret a)) :
    Posted dict request exchange a := by
  induction urls generalizing exchange with
  | nil =>
    obtain ⟨rfl, heq⟩ := reaches_ret.mp h
    cases heq
    exact .inr ⟨fun body => not_decides_nil, .inr rfl⟩
  | cons url urls ih =>
    unfold RequestProcessor.sendRequestTo at h
    split at h
    · obtain ⟨rfl, heq⟩ := reaches_ret.mp h
      cases heq
      exact .inr ⟨fun body => not_decides_nil, .inl rfl⟩
    · rename_i json hjson
      rcases reaches_call.mp h with ⟨-, heq⟩ | ⟨reply, rest, rfl, hrest⟩
      · cases heq
      · match reply with
        | .error e =>
          refine (ih hrest).cons fun body hdecides => ?_
          obtain ⟨_, _, _, _, hlast, -⟩ := hdecides
          cases hlast
        | .ok response =>
          -- a response that is no good, or whose body cannot be read, does not decide
          have hfailed : (¬(200 ≤ response.status ∧ response.status < 400) ∨
              ∃ e, response.text = .error e) → ∀ body,
              ¬Decides [⟨.post url timeout json, .ok response⟩] body := by
            intro hbad body hdecides
            obtain ⟨_, _, _, _, hlast, hlow, hhigh, htext⟩ := hdecides
            cases hlast
            rcases hbad with hbad | ⟨e, he⟩
            · exact hbad ⟨hlow, hhigh⟩
            · rw [htext] at he
              cases he
          dsimp only [Program.perform, Bind.bind, Program.bind] at hrest
          split at hrest
          · rename_i hstatus
            split at hrest
            · rename_i body htext
              obtain ⟨rfl, heq⟩ := reaches_ret.mp hrest
              cases heq
              exact .inl ⟨body, ⟨url, timeout, json, response, rfl, hstatus.1, hstatus.2, htext⟩, rfl⟩
            · rename_i e he
              exact (ih hrest).cons (hfailed (.inr ⟨e, he⟩))
          · rename_i hstatus
            exact (ih hrest).cons (hfailed (.inl hstatus))

/-- A processor that has a URL asks it. -/
theorem sendRequest_ne_nil {p : RequestProcessor} (hurls : p.urls ≠ [])
    (h : Reaches (p.sendRequest dict request) exchange (.ret (some (.ok answer)))) :
    exchange ≠ [] := by
  intro hempty
  subst hempty
  unfold RequestProcessor.sendRequest RequestProcessor.sendRequestTo at h
  split at h
  · rename_i hnone
    exact hurls hnone
  · split at h
    · obtain ⟨-, heq⟩ := reaches_ret.mp h
      cases heq
    · rcases reaches_call.mp h with ⟨-, heq⟩ | ⟨_, _, hcons, -⟩
      · cases heq
      · cases hcons

/-- What handling a request ends in: the answer in the body that decides. If that is none,
the request was answered as undeliverable, or not at all. -/
def Handled (dict : Dictionaries) (request : Command) (exchange : List (Sigma HttpCall.Reply))
    (r : OrPanic (Except String (Option Command))) : Prop :=
  (∃ body, Decides exchange body ∧
    (∀ e, RequestProcessor.createAnswer dict body request ≠ some (.error e)) ∧
    r = (RequestProcessor.createAnswer dict body request).map (·.map some)) ∨
  ((∀ body, Decides exchange body →
      ∃ e, RequestProcessor.createAnswer dict body request = some (.error e)) ∧
    (r = none ∨ (∃ e, r = some (.error e)) ∨
      r = some (.ok (some (request.createResponse.setResultCode 3002)))))

theorem handleWith_handled {processors : List RequestProcessor}
    {r : OrPanic (Except String (Option Command))}
    (h : Reaches (DefaultCommandHandler.handleWith dict request processors) exchange (.ret r)) :
    Handled dict request exchange r := by
  induction processors generalizing exchange with
  | nil =>
    obtain ⟨rfl, heq⟩ := reaches_ret.mp h
    cases heq
    exact .inr ⟨fun body hdecides => absurd hdecides not_decides_nil, .inr (.inl ⟨_, rfl⟩)⟩
  | cons p processors ih =>
    unfold DefaultCommandHandler.handleWith at h
    split at h
    · obtain ⟨first, second, a, rfl, hfirst, hsecond⟩ := h.bind_ret
      have hposted := sendRequestTo_posted hfirst
      match a with
      | none =>
        obtain ⟨rfl, heq⟩ := reaches_ret.mp hsecond
        cases heq
        rw [List.append_nil]
        rcases hposted with ⟨body, hdecides, heq⟩ | ⟨hnone, -⟩
        · exact .inl ⟨body, hdecides, by simp [← heq], by simp [← heq]⟩
        · exact .inr ⟨fun body hdecides => absurd hdecides (hnone body), .inl rfl⟩
      | some (.ok answer) =>
        obtain ⟨rfl, heq⟩ := reaches_ret.mp hsecond
        cases heq
        rw [List.append_nil]
        rcases hposted with ⟨body, hdecides, heq⟩ | ⟨hnone, heq | heq⟩
        · exact .inl ⟨body, hdecides, by simp [← heq], by simp [← heq, Except.map]⟩
        · cases heq
        · cases heq
          exact .inr ⟨fun body hdecides => absurd hdecides (hnone body), .inr (.inr rfl)⟩
      | some (.error e) =>
        -- no answer in the body, and the next processor is asked
        rcases hposted with ⟨body, hdecides, heq⟩ | ⟨-, heq | heq⟩
        · by_cases hempty : second = []
          · subst hempty
            rw [List.append_nil]
            rcases ih hsecond with ⟨body', hdecides', -⟩ | ⟨-, hr⟩
            · exact absurd hdecides' not_decides_nil
            · exact .inr ⟨fun body' hdecides' => ⟨e, by rw [hdecides.unique hdecides', heq]⟩, hr⟩
          · have happend : ∀ body, Decides (first ++ second) body ↔ Decides second body :=
              fun body => decides_append first hempty
            simpa only [Handled, happend] using ih hsecond
        · cases heq
        · cases heq
    · exact ih h

/-- **What an exchange with the backends ends in.** -/
theorem handleCommand_handled {handler : DefaultCommandHandler}
    {r : OrPanic (Except String (Option Command))} (hrequest : request.isRequest = true)
    (h : Reaches (handler.handleCommand request) exchange (.ret r)) :
    Handled handler.dictionaries request exchange r := by
  rw [DefaultCommandHandler.handleCommand, if_pos hrequest] at h
  exact handleWith_handled h

/-- An error means that no processor matched, or that the last body was no answer. -/
theorem handleWith_error {processors : List RequestProcessor} {e : String}
    (h : Reaches (DefaultCommandHandler.handleWith dict request processors) exchange
      (.ret (some (.error e)))) :
    (∀ p ∈ processors, p.matchesCommand request = true → p.urls ≠ []) ∧
      (((∀ p ∈ processors, p.matchesCommand request = false) ∧ exchange = []) ∨
        ∃ body e, Decides exchange body ∧
          RequestProcessor.createAnswer dict body request = some (.error e)) := by
  induction processors generalizing exchange with
  | nil =>
    obtain ⟨rfl, -⟩ := reaches_ret.mp h
    exact ⟨by simp, .inl ⟨by simp, rfl⟩⟩
  | cons p processors ih =>
    unfold DefaultCommandHandler.handleWith at h
    split at h
    · rename_i hmatches
      obtain ⟨first, second, a, rfl, hfirst, hsecond⟩ := h.bind_ret
      match a with
      | none =>
        obtain ⟨-, heq⟩ := reaches_ret.mp hsecond
        cases heq
      | some (.ok answer) =>
        obtain ⟨-, heq⟩ := reaches_ret.mp hsecond
        cases heq
      | some (.error e') =>
        rcases sendRequestTo_posted hfirst with ⟨body, hdecides, heq⟩ | ⟨-, heq | heq⟩
        · obtain ⟨hurls, hlast⟩ := ih hsecond
          refine ⟨fun p' hp' hmatches' => ?_, .inr ?_⟩
          · rcases List.mem_cons.mp hp' with rfl | hlater
            · intro hnone
              rw [RequestProcessor.sendRequest, hnone] at hfirst
              obtain ⟨-, heq'⟩ := reaches_ret.mp hfirst
              cases heq'
            · exact hurls p' hlater hmatches'
          · rcases hlast with ⟨-, rfl⟩ | ⟨body', e'', hdecides', herror⟩
            · rw [List.append_nil]
              exact ⟨body, e', hdecides, heq.symm⟩
            · have hne : second ≠ [] := by
                intro hnil
                subst hnil
                exact not_decides_nil hdecides'
              exact ⟨body', e'', (decides_append first hne).mpr hdecides', herror⟩
        · cases heq
        · cases heq
    · rename_i hmatches
      obtain ⟨hurls, hlast⟩ := ih h
      refine ⟨fun p' hp' hmatches' => ?_, hlast.imp (fun hnone => ⟨fun p' hp' => ?_, hnone.2⟩) id⟩
      · rcases List.mem_cons.mp hp' with rfl | hlater
        · exact absurd hmatches' hmatches
        · exact hurls p' hlater hmatches'
      · rcases List.mem_cons.mp hp' with rfl | hlater
        · simpa using hmatches
        · exact hnone.1 p' hlater

/-! ### The answer in a body -/

theorem code_readMember {fmt : TextFormats} {avpMap : AvpMap} {c c' : Command} {m : String × Json}
    (h : Command.readMember fmt avpMap c m = some c') : c'.code = c.code := by
  unfold Command.readMember at h
  dsimp only at h
  split at h
  · rw [← Option.some.inj h]
  · split at h
    · split at h <;> rw [← Option.some.inj h]
    · split at h
      · rw [← Option.some.inj h]
      · split at h
        · rw [← Option.some.inj h]
        · split at h
          · rw [← Option.some.inj h]
          · split at h
            · rw [← Option.some.inj h]
            · refine OrPanic.foldlM_keeps (g := Command.code) (fun c item c' hstep => ?_) h
              obtain ⟨avp, -, rfl⟩ := Option.map_eq_some_iff.mp hstep
              rfl

/-- The command has the code of its definition. -/
theorem code_fromJsonValue {fmt : TextFormats} {commandMap : CommandMap} {avpMap : AvpMap}
    {obj : List (String × Json)} {d : CommandJson} {c : Command}
    (hd : Command.getCommandDefine fmt obj commandMap = some d)
    (h : Command.fromJsonValue fmt commandMap avpMap (.object obj) = some (.ok c)) :
    c.code = d.code := by
  simp only [Command.fromJsonValue, hd] at h
  obtain ⟨read, hread, heq⟩ := Option.map_eq_some_iff.mp h
  rw [← Except.ok.inj heq]
  exact OrPanic.foldlM_keeps (g := Command.code) (fun _ _ _ => code_readMember) hread

/-- There is one for every object that names a definition, unless the conversion panics. -/
theorem fromJsonValue_ne_error {fmt : TextFormats} {commandMap : CommandMap} {avpMap : AvpMap}
    {obj : List (String × Json)} {d : CommandJson} {e : String}
    (hd : Command.getCommandDefine fmt obj commandMap = some d) :
    Command.fromJsonValue fmt commandMap avpMap (.object obj) ≠ some (.error e) := by
  intro h
  simp only [Command.fromJsonValue, hd] at h
  obtain ⟨read, -, heq⟩ := Option.map_eq_some_iff.mp h
  cases heq

@[simp] theorem code_answering {flags : UInt8} :
    (answer.answering request flags).code = answer.code := by
  unfold Command.answering
  split <;> split <;> split <;> simp

@[simp] theorem hopByHopId_answering {flags : UInt8} :
    (answer.answering request flags).hopByHopId = request.hopByHopId := by
  unfold Command.answering
  split <;> split <;> split <;> simp

@[simp] theorem endToEndId_answering {flags : UInt8} :
    (answer.answering request flags).endToEndId = request.endToEndId := by
  unfold Command.answering
  split <;> split <;> split <;> simp

@[simp] theorem flags_answering {flags : UInt8} :
    (answer.answering request flags).flags = flags &&& 0x7F := by
  have hmask : ~~~CommandFlags.request.asU8 = (0x7F : UInt8) := by decide
  unfold Command.answering
  rw [hmask]
  split <;> split <;> split <;> simp

/-- The definition a backend's object names, if the body holds one. -/
def Names (dict : Dictionaries) (request : Command) (body : String) (d : CommandJson) : Prop :=
  ∃ obj, dict.fmt.parseJson body = .ok (.object obj) ∧
    Command.getCommandDefine dict.fmt.toTextFormats (withCode request obj) dict.commandMap = some d

/-- The answer made of a body. -/
theorem createAnswer_ok (h : RequestProcessor.createAnswer dict body request = some (.ok answer)) :
    ∃ d, Names dict request body d ∧ answer.code = d.code ∧ answer.isRequest = false ∧
      answer.hopByHopId = request.hopByHopId ∧ answer.endToEndId = request.endToEndId := by
  unfold RequestProcessor.createAnswer at h
  split at h
  · cases h
  · rename_i obj hobj
    dsimp only at h
    split at h
    · rename_i read hread
      obtain rfl := Except.ok.inj (Option.some.inj h)
      cases hd : Command.getCommandDefine dict.fmt.toTextFormats (withCode request obj)
          dict.commandMap with
      | none =>
        simp only [Command.fromJsonValue, hd] at hread
        cases hread
      | some d =>
        exact ⟨d, ⟨obj, hobj, hd⟩, code_answering.trans (code_fromJsonValue hd hread),
          Command.isRequest_of_flags _ flags_answering, hopByHopId_answering, endToEndId_answering⟩
    · cases h
    · cases h
  · cases h

/-- A body that names a definition is no error. -/
theorem Names.createAnswer_ne_error {d : CommandJson} (h : Names dict request body d) (e : String) :
    RequestProcessor.createAnswer dict body request ≠ some (.error e) := by
  obtain ⟨obj, hobj, hd⟩ := h
  intro herror
  unfold RequestProcessor.createAnswer at herror
  rw [hobj] at herror
  dsimp only at herror
  split at herror
  · cases herror
  · rename_i e' hread
    exact fromJsonValue_ne_error hd hread
  · cases herror

theorem Names.unique {d d' : CommandJson} (h : Names dict request body d)
    (h' : Names dict request body d') : d' = d := by
  obtain ⟨obj, hobj, hd⟩ := h
  obtain ⟨obj', hobj', hd'⟩ := h'
  rw [hobj] at hobj'
  cases hobj'
  exact Option.some.inj (hd'.symm.trans hd)

/-- The backends have an answer: the last response names one, or brings no body to a request
that a processor matches; or a processor that matches has no URL to ask. -/
def Answerable (dict : Dictionaries) (request : Command) (processors : List RequestProcessor)
    (exchange : List (Sigma HttpCall.Reply)) : Prop :=
  (∃ body d, Decides exchange body ∧ Names dict request body d) ∨
  ∃ p ∈ processors, p.matchesCommand request = true ∧
    ((∀ body, ¬Decides exchange body) ∨ p.urls = [])

/-- If there is an answer, it was named, or a request that matched was not delivered. -/
theorem handleWith_ok {processors : List RequestProcessor} {r : Option Command}
    (h : Reaches (DefaultCommandHandler.handleWith dict request processors) exchange
      (.ret (some (.ok r)))) :
    (∃ body d, Decides exchange body ∧ Names dict request body d) ∨
    ∃ p ∈ processors, p.matchesCommand request = true ∧
      ((exchange ≠ [] ∧ ∀ body, ¬Decides exchange body) ∨ p.urls = []) := by
  induction processors generalizing exchange with
  | nil =>
    obtain ⟨-, heq⟩ := reaches_ret.mp h
    cases heq
  | cons p processors ih =>
    unfold DefaultCommandHandler.handleWith at h
    split at h
    · rename_i hmatches
      obtain ⟨first, second, a, rfl, hfirst, hsecond⟩ := h.bind_ret
      match a with
      | none =>
        obtain ⟨-, heq⟩ := reaches_ret.mp hsecond
        cases heq
      | some (.ok answer) =>
        obtain ⟨rfl, -⟩ := reaches_ret.mp hsecond
        rw [List.append_nil]
        rcases sendRequestTo_posted hfirst with ⟨body, hdecides, heq⟩ | ⟨hnone, -⟩
        · obtain ⟨d, hnames, -⟩ := createAnswer_ok heq.symm
          exact .inl ⟨body, d, hdecides, hnames⟩
        · refine .inr ⟨p, List.mem_cons_self, hmatches, ?_⟩
          by_cases hurls : p.urls = []
          · exact .inr hurls
          · exact .inl ⟨sendRequest_ne_nil hurls hfirst, hnone⟩
      | some (.error e) =>
        -- what the other processors have done comes last
        rcases ih hsecond with ⟨body, d, hdecides, hnames⟩ | ⟨p', hp', hmatches', hlast⟩
        · have hne : second ≠ [] := by
            intro hnil
            subst hnil
            exact not_decides_nil hdecides
          exact .inl ⟨body, d, (decides_append first hne).mpr hdecides, hnames⟩
        · refine .inr ⟨p', List.mem_cons_of_mem _ hp', hmatches', hlast.imp_left ?_⟩
          intro hsilent
          obtain ⟨hne, hnone⟩ := hsilent
          exact ⟨by simp [hne], fun body hdecides =>
            hnone body ((decides_append first hne).mp hdecides)⟩
    · rcases ih h with hnamed | ⟨p', hp', hlast⟩
      · exact .inl hnamed
      · exact .inr ⟨p', List.mem_cons_of_mem _ hp', hlast⟩

/-- **When a request for this stack gets an answer.** Exactly if the backends have one. It has
the id of the request. -/
theorem handleCommand_answerable {handler : DefaultCommandHandler} {r : Except String (Option Command)}
    (hrequest : request.isRequest = true)
    (h : Reaches (handler.handleCommand request) exchange (.ret (some r))) :
    (Answerable handler.dictionaries request handler.requestProcessors exchange ∧ ∃ answer,
      r = .ok (some answer) ∧ answer.isRequest = false ∧
        answer.hopByHopId = request.hopByHopId) ∨
    (¬Answerable handler.dictionaries request handler.requestProcessors exchange ∧
      ∃ e, r = .error e) := by
  have hrun := h
  rw [DefaultCommandHandler.handleCommand, if_pos hrequest] at hrun
  cases r with
  | error e =>
    refine .inr ⟨fun hanswerable => ?_, e, rfl⟩
    obtain ⟨hurls, hlast⟩ := handleWith_error hrun
    rcases hanswerable with ⟨body, d, hdecides, hnames⟩ | ⟨p, hp, hmatches, hnone | hempty⟩
    · rcases hlast with ⟨-, rfl⟩ | ⟨body', e', hdecides', herror⟩
      · exact absurd hdecides not_decides_nil
      · obtain rfl := hdecides.unique hdecides'
        exact absurd herror (hnames.createAnswer_ne_error e')
    · rcases hlast with ⟨hno, -⟩ | ⟨body', -, hdecides', -⟩
      · rw [hno p hp] at hmatches
        cases hmatches
      · exact absurd hdecides' (hnone body')
    · exact absurd hempty (hurls p hp hmatches)
  | ok r =>
    refine .inl ⟨(handleWith_ok hrun).imp_right ?_, ?_⟩
    · intro hlast
      obtain ⟨p, hp, hmatches, hsilent⟩ := hlast
      exact ⟨p, hp, hmatches, hsilent.imp_left And.right⟩
    · rcases handleCommand_handled hrequest h with ⟨body, -, -, heq⟩ | ⟨-, heq | ⟨e, heq⟩ | heq⟩
      · obtain ⟨read, hread, hok⟩ := Option.map_eq_some_iff.mp heq.symm
        cases read with
        | ok answer =>
          obtain ⟨-, -, -, hflag, hhop, -⟩ := createAnswer_ok hread
          exact ⟨answer, hok.symm, hflag, hhop⟩
        | error e => cases hok
      · cases heq
      · cases heq
      · cases heq
        have hanswers : (request.createResponse.setResultCode 3002).Answers request :=
          Command.answers_createResponse.setAvp
        exact ⟨_, rfl, hanswers.isRequest, hanswers.hopByHopId⟩

end

end RestDiameterBridge
