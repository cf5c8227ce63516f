import RestDiameterBridge.Transport.RestToBackend

/-!
# RestDiameterBridge.Transport.AnswerToClient

The answer of a backend on its way to the REST client that has asked (`create_answer`,
`process_answer`, `to_json`).

What a backend posts back becomes an answer under the ids of the request, with the
destination of the request as its origin. Each bridge takes its Route-Record out again.
`answer_reaches_client` says which JSON the listener makes of what it reads.
-/

namespace RestDiameterBridge

open Bytes Avp Program

/-- The answer on the other side of some hosts, without their Route-Records. -/
def Command.backPast (c : Command) (hosts : List String) (id : UInt32) : Command :=
  { c with
    hopByHopId := id
    avps := c.avps.filter fun a => !hosts.any fun host => Command.isRecordRoute host a.received }

/-- Set the text, if there is one. -/
def Command.setTextIf (c : Command) (code : AvpCode) : Option String → Command
  | some text => c.setText code text
  | none => c

/-- The text in the place of the first value, if there is one. -/
def replaceFirst (text : Option String) (values : List Json) : List Json :=
  match text with
  | some text => .string text :: values.tail
  | none => values

/-- The values under a name that come back: those of the body of the backend, with the
destination of the request as the origin, and without the hosts of the bridges. -/
def AvpMap.Routes.returned {map : AvpMap} (routes : map.Routes) (request : Command)
    (hosts : List String) (obj : List (String × Json)) (name : String) : List Json :=
  let values := valuesUnder obj name
  if name = routes.originHost.name then replaceFirst request.getDestinationHost values
  else if name = routes.originRealm.name then replaceFirst request.getDestinationRealm values
  else if name = routes.routeRecord.name then
    values.filter fun v => !hosts.any fun host => v.asStr = some host
  else values

section
variable {fmt : TextFormats} {commandMap : CommandMap} {map : AvpMap} {obj : List (String × Json)}
  {d : CommandJson} {c request : Command} {name host : String} {hosts : List String}
  {id : UInt32} {a : Avp} {v : Json} {values : List Json} {named : AvpJson} {s : Message}

/-- A Route-Record is recognized by the host it is shown as. -/
theorem isRecordRoute_received (hmap : map.Bijective) (hcode : map.ShowsHosts .routeRecord named)
    (h : a.ArrivesAs fmt map (named.name, v)) (harrives : Arrives a) :
    Command.isRecordRoute host a.received = decide (v.asStr = some host) := by
  obtain ⟨hnamed, hname⟩ := hmap.byCode _ _ hcode.byCode
  obtain ⟨d, hd, hdname⟩ := Option.map_eq_some_iff.mp h.name
  obtain ⟨hdcode, hdnamed⟩ := hmap.byCode _ _ hd
  have hsame : d = named := by
    rw [hdname, hname] at hdnamed
    exact (Option.some.inj hdnamed).symm
  subst hsame
  have hacode : a.received.code = AvpCode.routeRecord.asU32 := hdcode.symm.trans hnamed
  have hshown := h.shown harrives
  have hdata : a.received.data = some a.received.payload := rfl
  have hbyCode : map.getByCode a.received.code = some d := hd
  rw [avpToNameValue_of_scalar hbyCode (by rw [hcode.avpType]; simp), hcode.avpType] at hshown
  have htext : scalarToValue fmt.toFormats .diameterIdentity a.received =
      some (a.received.asUtf8String.map .string) := by
    rw [scalarToValue, Avp.asUtf8String, hdata]
    rfl
  rw [htext] at hshown
  cases htext : a.received.asUtf8String with
  | none =>
    rw [htext] at hshown
    cases hshown
  | some s =>
    rw [htext] at hshown
    obtain rfl : v = .string s := by simpa using hshown.symm
    rw [Command.isRecordRoute, hacode, htext]
    simp [Json.asStr, beq_eq_decide]

/-- What does not have the name of a Route-Record is none. -/
theorem not_isRecordRoute_received (hcode : map.ShowsHosts .routeRecord named)
    (hne : a.name map ≠ some named.name) : Command.isRecordRoute host a.received = false := by
  have hacode : ¬a.received.code = AvpCode.routeRecord.asU32 := by
    intro heq
    refine hne ?_
    have hsame : a.code = AvpCode.routeRecord.asU32 := heq
    rw [Avp.name, hsame, hcode.byCode]
    rfl
  rw [Command.isRecordRoute]
  simp [hacode]

theorem carries_backPast (hmap : map.Bijective) (hcode : map.ShowsHosts .routeRecord named)
    (hfits : ∀ a ∈ c.avps, Arrives a) (h : c.Carries fmt map named.name values) :
    (c.backPast hosts id).Carries fmt map named.name
      (values.filter fun v => !hosts.any fun host => v.asStr = some host) := by
  rw [Command.Carries, Command.backPast, List.filter_comm]
  have hall := (List.forall₂_and_left _ _).mpr
    ⟨fun a ha => hfits a (List.mem_filter.mp ha).1, h⟩
  refine (OrPanic.forall₂_filter (fun a v hav => ?_) hall).imp fun a v hav => hav.2
  congr 1
  exact congrArg hosts.any (funext fun host => isRecordRoute_received hmap hcode hav.2 hav.1)

theorem carries_backPast_of_ne (hcode : map.ShowsHosts .routeRecord named)
    (hne : name ≠ named.name) (h : c.Carries fmt map name values) :
    (c.backPast hosts id).Carries fmt map name values := by
  rw [Command.Carries, Command.backPast, List.filter_comm]
  have hkept : ((c.avps.filter (·.name map = some name)).filter fun a =>
      !hosts.any fun host => Command.isRecordRoute host a.received) =
        c.avps.filter (·.name map = some name) := by
    rw [List.filter_eq_self]
    intro a ha
    have hname : a.name map = some name := of_decide_eq_true (List.mem_filter.mp ha).2
    have hother : a.name map ≠ some named.name := by
      rw [hname]
      simpa using hne
    simp [not_isRecordRoute_received hcode hother]
  rw [hkept]
  exact h

/-- The message of the answer behind the hosts. -/
theorem command_back (hs : s.command = c.received) :
    (s.back hosts id).command = (c.backPast hosts id).received := by
  have hdrop : ∀ w : WireAvp, (!hosts.any fun host => w.names host) =
      !hosts.any fun host => Command.isRecordRoute host w.toAvp := by
    intro w
    congr 1
    exact congrArg hosts.any (funext fun host => (isRecordRoute_toAvp w).symm)
  calc (s.back hosts id).command
      = { s.command with
          hopByHopId := id
          avps := s.command.avps.filter fun a =>
            !hosts.any fun host => Command.isRecordRoute host a } := by
        simp only [Message.back, Message.restored, Message.command, List.filter_map]
        congr 2
        exact List.filter_congr fun w _ => hdrop w
    _ = (c.backPast hosts id).received := by
        rw [hs]
        simp [Command.received, Command.backPast, List.filter_map, Function.comp_def]

theorem PostedBody.withCode (hbody : PostedBody fmt map obj) :
    PostedBody fmt map (withCode request obj) := by
  unfold RestDiameterBridge.withCode
  split
  · refine ⟨Json.nodup_insert hbody.nodup, fun m hm hname => ?_⟩
    rcases Json.mem_insert hm with hm | rfl
    · exact hbody.entries m hm hname
    · exact absurd (by simp [reservedNames, headerNames]) hname
  · exact hbody

theorem valuesUnder_withCode (hbody : PostedBody fmt map obj) (hname : name ∉ reservedNames) :
    valuesUnder (withCode request obj) name = valuesUnder obj name := by
  unfold withCode valuesUnder
  split
  · have hne : name ≠ "code" := by
      rintro rfl
      exact hname (by simp [reservedNames, headerNames])
    rw [Json.get_insert_of_ne hbody.nodup hne]
  · rfl

/-- An answer has the origin that the request was sent to. -/
theorem exists_answering (request answer : Command) (flags : UInt8) :
    ∃ base : Command, base.avps = answer.avps ∧ answer.answering request flags =
      (base.setTextIf .originRealm request.getDestinationRealm).setTextIf .originHost
        request.getDestinationHost := by
  unfold Command.answering Command.setTextIf
  by_cases happlication : request.applicationId ≠ 0
  · simp only [if_pos happlication]
    cases request.getDestinationRealm <;> cases request.getDestinationHost <;>
      exact ⟨_, by rfl, rfl⟩
  · simp only [if_neg happlication]
    cases request.getDestinationRealm <;> cases request.getDestinationHost <;>
      exact ⟨_, by rfl, rfl⟩

theorem carries_setTextIf {code : AvpCode} {text : Option String} (hmap : map.Bijective)
    (hcode : map.ShowsHosts code named) (h : c.Carries fmt map named.name values) :
    (c.setTextIf code text).Carries fmt map named.name (replaceFirst text values) := by
  cases text with
  | none => exact h
  | some text => exact carries_setText hmap hcode h

theorem carries_setTextIf_of_ne {code : AvpCode} {text : Option String} (hmap : map.Bijective)
    (hcode : map.ShowsHosts code named) (hne : name ≠ named.name)
    (h : c.Carries fmt map name values) : (c.setTextIf code text).Carries fmt map name values := by
  cases text with
  | none => exact h
  | some text => exact carries_setText_of_ne hmap hcode hne h

theorem Command.Arrives.setTextIf {code : AvpCode} {text : Option String}
    (hcode : map.ShowsHosts code named) (h : c.Arrives fmt map) :
    (c.setTextIf code text).Arrives fmt map := by
  cases text with
  | none => exact h
  | some text => exact h.setText hcode

/-- All AVPs that a backend answers with arrive. -/
theorem arrives_answering {answer : Command} (flags : UInt8) (hfmt : fmt.ReadsBack)
    (hmap : map.Bijective) (routes : map.Routes) (hbody : PostedBody fmt map obj)
    (h : Command.fromJsonValue fmt commandMap map (.object (withCode request obj)) =
      some (.ok answer)) : (answer.answering request flags).Arrives fmt map := by
  obtain ⟨base, havps, heq⟩ := exists_answering request answer flags
  have hbase : base.Arrives fmt map := by
    rw [Command.Arrives, havps]
    exact arrivesAs_of_mem hfmt hmap hbody.withCode h
  rw [heq]
  exact (hbase.setTextIf routes.showsRealm).setTextIf routes.showsHost

/-- What the body of a backend has become at the listener. -/
theorem carries_returned {answer : Command} {flags : UInt8} (hfmt : fmt.ReadsBack)
    (hmap : map.Bijective) (routes : map.Routes) (hbody : PostedBody fmt map obj)
    (hd : Command.getCommandDefine fmt (withCode request obj) commandMap = some d)
    (h : Command.fromJsonValue fmt commandMap map (.object (withCode request obj)) =
      some (.ok answer))
    (hfits : ∀ a ∈ (answer.answering request flags).avps, Arrives a) (hname : name ∉ reservedNames) :
    ((answer.answering request flags).backPast hosts id).Carries fmt map name
      (routes.returned request hosts obj name) := by
  obtain ⟨base, havps, heq⟩ := exists_answering request answer flags
  rw [heq] at hfits ⊢
  have hposted : base.Carries fmt map name (valuesUnder obj name) := by
    rw [Command.Carries, havps, ← valuesUnder_withCode hbody hname]
    exact values_of_fromJsonValue hfmt hmap hbody.withCode hd h hname
  unfold AvpMap.Routes.returned
  dsimp only
  split
  · rename_i heq
    subst heq
    refine carries_backPast_of_ne routes.showsRecord
      (routes.showsHost.name_ne hmap routes.showsRecord (by decide)) ?_
    refine carries_setTextIf hmap routes.showsHost ?_
    exact carries_setTextIf_of_ne hmap routes.showsRealm
      (routes.showsHost.name_ne hmap routes.showsRealm (by decide)) hposted
  · rename_i hhost
    split
    · rename_i heq
      subst heq
      refine carries_backPast_of_ne routes.showsRecord
        (routes.showsRealm.name_ne hmap routes.showsRecord (by decide)) ?_
      refine carries_setTextIf_of_ne hmap routes.showsHost hhost ?_
      exact carries_setTextIf hmap routes.showsRealm hposted
    · rename_i hrealm
      have hset : ((base.setTextIf .originRealm request.getDestinationRealm).setTextIf .originHost
          request.getDestinationHost).Carries fmt map name (valuesUnder obj name) :=
        carries_setTextIf_of_ne hmap routes.showsHost hhost
          (carries_setTextIf_of_ne hmap routes.showsRealm hrealm hposted)
      split
      · rename_i heq
        subst heq
        exact carries_backPast hmap routes.showsRecord hfits hset
      · rename_i hrecord
        exact carries_backPast_of_ne routes.showsRecord hrecord hset

theorem length_encode_backPast_le :
    (c.backPast hosts id).encode.length ≤ c.encode.length := by
  have hsub : (c.backPast hosts id).avps.Sublist c.avps := List.filter_sublist
  rw [Command.length_encode, Command.length_encode]
  exact Nat.add_le_add_left (hsub.flatMap encode).length_le 20

/-- The answer is the one in the body that decides. -/
theorem exists_of_decides {handler : DefaultCommandHandler} {answer : Command} {text : String}
    {exchange : List (Sigma HttpCall.Reply)} (hkind : request.isRequest = true)
    (h : (handler.handleCommand request).Reaches exchange (.ret (some (.ok (some answer)))))
    (hdecides : Decides exchange text)
    (hparse : handler.dictionaries.fmt.parseJson text = .ok (.object obj))
    (hd : Command.getCommandDefine handler.dictionaries.fmt.toTextFormats (withCode request obj)
      handler.dictionaries.commandMap = some d) :
    ∃ read flags, Command.fromJsonValue handler.dictionaries.fmt.toTextFormats
        handler.dictionaries.commandMap handler.dictionaries.avpMap
        (.object (withCode request obj)) = some (.ok read) ∧
      answer = read.answering request flags := by
  have hnames : Names handler.dictionaries request text d := ⟨obj, hparse, hd⟩
  rcases handleCommand_handled hkind h with ⟨body, hbody, -, hr⟩ | ⟨herror, -⟩
  · obtain rfl := hdecides.unique hbody
    obtain ⟨result, hcreate, hmap⟩ := Option.map_eq_some_iff.mp hr.symm
    match result with
    | .error e => cases hmap
    | .ok made =>
      cases hmap
      unfold RequestProcessor.createAnswer at hcreate
      rw [hparse] at hcreate
      dsimp only at hcreate
      split at hcreate
      · rename_i read hread
        cases hcreate
        exact ⟨read, _, hread, rfl⟩
      · cases hcreate
      · cases hcreate
  · obtain ⟨e, he⟩ := herror text hdecides
    exact absurd he (hnames.createAnswer_ne_error e)

end

/-- **An answer from backend to REST client.** The request of a listener passes the nodes of a
path and is answered by a handler at its end, with a body of presented values. Then what the
listener reads is shown, under each name outside the header, with the values of that body: with
the destination of the request in front of other origins, and without the Route-Records of the
path. It has the hop-by-hop id and the end-to-end id of the request. -/
theorem answer_reaches_client {ι : Type} {net : Network ι} {path : List ι} {fmt : TextFormats}
    {commandMap : CommandMap} {map : AvpMap} {settings : SendSettings} {host realm : String}
    {obj answerObj : List (String × Json)} {request c answer a : Command}
    {arrived returned : List UInt8} {handler : DefaultCommandHandler} {d : CommandJson}
    {exchange : List (Sigma HttpCall.Reply)} {text : String}
    (hfmt : fmt.ReadsBack) (hmap : map.Bijective) (routes : map.Routes)
    (hbody : PostedBody fmt map obj)
    (hrequest : HandsOver fmt commandMap map settings host realm (.object obj) request)
    (hcode : request.code.toNat < 2 ^ 24)
    (hroom : request.encode.length + recordsLength (path.map net.host) < 2 ^ 24)
    (hchain : net.Chain path request.encode arrived answer.encode returned) (hread : Reads arrived c)
    (hsame : handler.dictionaries.fmt.toTextFormats = fmt ∧ handler.dictionaries.avpMap = map)
    (hexchange : (handler.handleCommand c).Reaches exchange (.ret (some (.ok (some answer)))))
    (hdecides : Decides exchange text)
    (hparse : handler.dictionaries.fmt.parseJson text = .ok (.object answerObj))
    (hanswer : PostedBody fmt map answerObj)
    (hd : Command.getCommandDefine fmt (withCode c answerObj) handler.dictionaries.commandMap =
      some d)
    (hdcode : d.code.toNat < 2 ^ 24) (hsize : answer.encode.length < 2 ^ 24)
    (hback : Reads returned a) :
    a.hopByHopId = request.hopByHopId ∧ a.endToEndId = request.endToEndId ∧ a.code = d.code ∧
      ∃ members, a.toJson fmt.toFormats commandMap map = some (.object members) ∧
        (∀ name ∉ reservedNames, Json.get members name =
          Json.gather (routes.returned c (path.map net.host) answerObj name)) ∧
        ∀ field ∈ headerFields a, Json.get members field.1 = some field.2 := by
  obtain ⟨rfl, hsameMap⟩ := hsame
  subst hsameMap
  obtain ⟨hall, -⟩ := exists_of_handsOver hfmt hmap routes hbody hrequest
  obtain ⟨id, rfl, hchain⟩ := reads_past hall hcode hroom hchain hread
  have hkind : (request.past (path.map net.host) id).received.isRequest = true := by
    obtain ⟨command, hcommand, -, -, hkind, _, _, rfl⟩ := handsOver_iff.mp hrequest
    exact Command.isRequest_setOrigin.trans hkind
  obtain ⟨read, flags, hmade, rfl⟩ := exists_of_decides hkind hexchange hdecides hparse hd
  generalize hc : (request.past (path.map net.host) id).received = c at *
  have hhop : c.hopByHopId = id := by
    rw [← hc]
    rfl
  have hend : c.endToEndId = request.endToEndId := by
    rw [← hc]
    rfl
  -- what is answered arrives
  have hall := arrives_answering flags hfmt hmap routes hanswer hmade
  have hfits : ∀ a ∈ (read.answering c flags).avps, Arrives a := fun a ha => by
    obtain ⟨p, hp⟩ := hall a ha
    exact arrives_of_mem hp.counted hp.vendor hsize ha
  have hmadeCode : (read.answering c flags).code = d.code :=
    code_answering.trans (code_fromJsonValue hd hmade)
  obtain ⟨s, hs, hbytes, hlength⟩ := exists_message (hmadeCode ▸ hdcode) hfits hsize
  have hid : s.hopByHopId = id := by
    have hcommand : s.command.hopByHopId = (read.answering c flags).hopByHopId := by
      rw [hs]
      rfl
    exact hcommand.trans (hopByHopId_answering.trans hhop)
  -- and comes back under the id of the request
  obtain rfl := hchain s hbytes.symm (hlength ▸ hsize) hid
  obtain rfl := hback.command (Nat.lt_of_le_of_lt length_restored_le (hlength ▸ hsize))
  rw [command_back hs]
  obtain ⟨members, hjson, hentries, hfields⟩ := toJson_received hmap
    (fun a ha => hall a (List.mem_filter.mp ha).1)
    (Nat.lt_of_le_of_lt length_encode_backPast_le hsize) commandMap
  refine ⟨rfl, endToEndId_answering.trans hend, hmadeCode, members, hjson, fun name hname => ?_,
    hfields⟩
  exact hentries name (not_mem_headerKeys hname) _
    (carries_returned hfmt hmap routes hanswer hd hmade hfits hname)

open RestToBackend in
/-- The answer has the host that the request was sent to as its origin. -/
theorem answer_reaches_client_relayed : ∃ a, Reads (answer.command.returned "bridge" 7).encode a ∧
    a.hopByHopId = 7 ∧ ∃ members,
      a.toJson (standardTexts true).toFormats commandMap (.new []) = some (.object members) ∧
      Json.get members "Origin-Host" = some (.string "peer") ∧
      Json.get members "Result-Code" = some (.ofInt 2001) := by
  obtain ⟨json, hexchange⟩ := reaches_answer
  have hdecides : Decides [⟨.post "http://backend" 1000 json, .ok ⟨200, .ok replyText⟩⟩] replyText :=
    ⟨_, _, _, _, rfl, by decide, by decide, rfl⟩
  have hback : Reads (answer.command.returned "bridge" 7).encode
      (answer.restored 7 (WireAvp.names "bridge")).command := by
    rw [← command_restored]
    exact reads_message (by decide)
  obtain ⟨hid, -, -, members, hjson, hentries, -⟩ := answer_reaches_client
    (lawful_standardTexts true).toReadsBack bijective_standard routes postedBody_body handsOver_request
    (by decide) (by decide) (.relay relays_request (.arrive _ _)) reads_relayed ⟨rfl, rfl⟩ hexchange
    hdecides (parseOnly_text replyText reply) postedBody_reply rfl (by decide) (by decide) hback
  have hhost : relayed.command.getDestinationHost = some "peer" := getText_text rfl
  refine ⟨_, hback, hid, members, hjson, ?_, ?_⟩
  · rw [hentries "Origin-Host" (by decide)]
    show Json.gather (replaceFirst relayed.command.getDestinationHost _) = _
    rw [hhost]
    rfl
  · rw [hentries "Result-Code" (by decide)]
    rfl

end RestDiameterBridge
