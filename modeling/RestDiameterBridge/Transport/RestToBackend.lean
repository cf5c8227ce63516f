import RestDiameterBridge.JsonThroughWire
import RestDiameterBridge.RestOrigin
import RestDiameterBridge.Transport.RelayChain

/-!
# RestDiameterBridge.Transport.RestToBackend

A request of a REST client that a backend of another stack handles
(`handle_diameter_request`, `process_command`, `handle_command`).

The JSON that is posted to a listener becomes a command, gets the origin of the listener,
passes any number of bridges, each of which adds its Route-Record, and is posted to a backend
as JSON again. `request_reaches_backend` says which JSON that is: under each name the values
of the body, apart from the origin and the Route-Records.
-/

namespace RestDiameterBridge

open Bytes Avp Program

/-! ### Messages -/

section
variable {c : Command} {a : Avp}

/-- An AVP that fits is one of a message. -/
theorem exists_wireAvp (h : Arrives a) : ∃ w : WireAvp, w.toAvp = a.received ∧ w.bytes = a.encode := by
  let w : WireAvp := ⟨a.code, a.flags, if a.flags &&& 0x80 != 0 then a.vendorId else none, a.payload,
    (wellFormed_received h.vendor).vendor⟩
  have hw : w.toAvp = a.received := (received_eq_of_fits h.fits).symm
  have hlength : w.length < 2 ^ 32 := by
    have hheader : (headerLength a.flags).toNat = 8 + w.vendorBytes.length := w.toNat_headerLength
    have hfits := h.fits
    show 8 + w.vendorBytes.length + a.payload.length < 2 ^ 32
    omega
  refine ⟨w, hw, ?_⟩
  rw [← w.encode_toAvp hlength, hw, encode_received h.counted h.vendor h.fits]

/-- So a command that fits is a message. -/
theorem exists_message (hcode : c.code.toNat < 2 ^ 24) (havps : ∀ a ∈ c.avps, Arrives a)
    (hsize : c.encode.length < 2 ^ 24) :
    ∃ m : Message, m.command = c.received ∧ m.bytes = c.encode ∧ m.length = c.encode.length := by
  obtain ⟨ws, hws⟩ := OrPanic.exists_forall₂ fun a ha => exists_wireAvp (havps a ha)
  let m : Message := ⟨c.flags, c.code, c.applicationId, c.hopByHopId, c.endToEndId, ws, hcode⟩
  have havps' : ws.map WireAvp.toAvp = c.avps.map received := by
    rw [← List.forall₂_eq_eq_eq, List.forall₂_map_left_iff, List.forall₂_map_right_iff]
    exact List.Forall₂.flip (hws.imp fun a w h => h.1)
  have hbody : m.body = c.avps.flatMap encode := by
    show ws.flatMap WireAvp.bytes = _
    clear havps'
    generalize c.avps = avps at hws
    induction hws with
    | nil => rfl
    | cons h _ ih => rw [List.flatMap_cons, List.flatMap_cons, h.2, ih]
  have hcommand : m.command = c.received := by
    show (⟨_, _, _, _, _, ws.map WireAvp.toAvp⟩ : Command) = _
    rw [havps']
    rfl
  have hlength : m.length = c.encode.length := by
    rw [Message.length, hbody, Command.length_encode]
  refine ⟨m, hcommand, ?_, hlength⟩
  rw [← Message.encode_command (hlength ▸ hsize), hcommand]
  exact (decode_encode_received_command hcode havps hsize).1

end

/-! ### Values under a name -/

/-- The AVPs of the name arrive as the values, one after another. -/
def Command.Carries (fmt : TextFormats) (map : AvpMap) (c : Command) (name : String)
    (values : List Json) : Prop :=
  List.Forall₂ (fun a v => a.ArrivesAs fmt map (name, v)) (c.avps.filter (·.name map = some name))
    values

/-- All AVPs arrive as something. -/
def Command.Arrives (fmt : TextFormats) (map : AvpMap) (c : Command) : Prop :=
  ∀ a ∈ c.avps, ∃ p, a.ArrivesAs fmt map p

/-- The names of hosts are shown as texts. -/
structure AvpMap.ShowsHosts (map : AvpMap) (code : AvpCode) (named : AvpJson) : Prop where
  byCode : map.getByCode code.asU32 = some named
  avpType : named.avpType = .diameterIdentity

section
variable {fmt : TextFormats} {map : AvpMap} {c : Command} {a : Avp} {name s : String}
  {named : AvpJson} {code : AvpCode} {values : List Json}

/-- A text arrives as it is. -/
theorem arrivesAs_text (hcode : map.ShowsHosts code named) (ha : a.code = code.asU32)
    (hdata : a.data = some s.toUTF8.data.toList)
    (hvendor : (a.flags &&& 0x80 != 0) = true → a.vendorId.isSome = true) :
    a.ArrivesAs fmt map (named.name, .string s) := by
  obtain ⟨acode, flags, vendorId, data, subAvps⟩ := a
  obtain rfl : data = some s.toUTF8.data.toList := hdata
  obtain rfl : acode = code.asU32 := ha
  refine ⟨.scalar hvendor, hvendor, by rw [Avp.name, hcode.byCode]; rfl, fun harrives => ?_⟩
  rw [received_eq_of_fits harrives.fits]
  have htext : String.fromUTF8? ⟨s.toUTF8.data.toList.toArray⟩ = some s :=
    fromUTF8_eq_some_iff.mpr rfl
  rw [avpToNameValue_of_scalar hcode.byCode (by rw [hcode.avpType]; simp), hcode.avpType]
  show (some ((String.fromUTF8? ⟨s.toUTF8.data.toList.toArray⟩).map Json.string)).map _ = _
  rw [htext]
  rfl

theorem name_fromUtf8String (hcode : map.ShowsHosts code named) :
    (fromUtf8String code.asU32 AvpFlags.mandatory.asU8 none s).name map = some named.name := by
  show (map.getByCode code.asU32).map AvpJson.name = _
  rw [hcode.byCode]
  rfl

theorem arrivesAs_fromUtf8String (hcode : map.ShowsHosts code named) :
    (fromUtf8String code.asU32 AvpFlags.mandatory.asU8 none s).ArrivesAs fmt map
      (named.name, .string s) :=
  arrivesAs_text hcode rfl rfl fun hbit => (new_vendorBit _ _ _ _).symm.trans hbit

/-- The AVPs of a name are those of its code. -/
theorem filter_name (hmap : map.Bijective) (hnamed : map.getByName name = some named) :
    c.avps.filter (·.name map = some name) = c.getAvps named.code := by
  rw [Command.getAvps]
  refine List.filter_congr fun a _ => ?_
  obtain ⟨hname, hcode⟩ := hmap.byName _ _ hnamed
  rw [Bool.eq_iff_iff, decide_eq_true_eq, beq_iff_eq, Avp.name]
  constructor
  · intro h
    obtain ⟨d, hd, hdname⟩ := Option.map_eq_some_iff.mp h
    obtain ⟨hdcode, hbyName⟩ := hmap.byCode _ _ hd
    rw [hdname, hnamed] at hbyName
    rw [Option.some.inj hbyName, hdcode]
  · intro h
    rw [h, hcode, Option.map_some, hname]

/-- No AVP has a name that is not defined. -/
theorem filter_name_eq_nil (hmap : map.Bijective) (hnone : map.getByName name = none) :
    c.avps.filter (·.name map = some name) = [] := by
  rw [List.filter_eq_nil_iff]
  intro a _ h
  obtain ⟨d, hd, hdname⟩ := Option.map_eq_some_iff.mp (of_decide_eq_true h)
  rw [← hdname, (hmap.byCode _ _ hd).2] at hnone
  cases hnone

/-- A text that is set arrives in front of the others of its code, in the place of the first. -/
theorem carries_setText (hmap : map.Bijective) (hcode : map.ShowsHosts code named)
    (h : c.Carries fmt map named.name values) :
    (c.setText code s).Carries fmt map named.name (.string s :: values.tail) := by
  obtain ⟨hnamed, hname⟩ := hmap.byCode _ _ hcode.byCode
  have hset : (c.setText code s).getAvps code.asU32 = _ :=
    Command.getAvps_setAvp (fun _ => rfl) rfl
  rw [Command.Carries, filter_name hmap hname, hnamed] at h ⊢
  rw [hset]
  generalize hfound : c.getAvps code.asU32 = found at h
  cases h with
  | nil =>
    exact .cons (arrivesAs_fromUtf8String hcode) .nil
  | @cons a v rest values ha hrest =>
    have hmem : a ∈ c.getAvps code.asU32 := hfound ▸ List.mem_cons_self
    have hacode : a.code = code.asU32 := by simpa using (List.mem_filter.mp hmem).2
    exact .cons (arrivesAs_text hcode hacode rfl ha.vendor) hrest

/-- The values under other names stay. -/
theorem carries_setText_of_ne (hmap : map.Bijective) (hcode : map.ShowsHosts code named)
    (hne : name ≠ named.name) (h : c.Carries fmt map name values) :
    (c.setText code s).Carries fmt map name values := by
  rw [Command.Carries] at h ⊢
  cases hother : map.getByName name with
  | none =>
    rw [filter_name_eq_nil hmap hother] at h ⊢
    exact h
  | some other =>
    have hkept : (c.setText code s).getAvps other.code = c.getAvps other.code := by
      refine Command.getAvps_setAvp_of_ne (fun heq => hne ?_) (fun _ => rfl) rfl
      obtain ⟨hname, hbyCode⟩ := hmap.byName _ _ hother
      rw [heq, hcode.byCode] at hbyCode
      rw [Option.some.inj hbyCode, hname]
    rw [filter_name hmap hother] at h ⊢
    rw [hkept]
    exact h

theorem Command.Arrives.setText (hcode : map.ShowsHosts code named) (h : c.Arrives fmt map) :
    (c.setText code s).Arrives fmt map := by
  intro a ha
  rcases Command.mem_setAvp ha with ha | ⟨b, hb, hbcode, rfl⟩ | rfl
  · exact h a ha
  · obtain ⟨p, hp⟩ := h b hb
    exact ⟨_, arrivesAs_text hcode hbcode rfl hp.vendor⟩
  · exact ⟨_, arrivesAs_fromUtf8String hcode⟩

end

/-! ### The way there -/

/-- The request behind some hosts, under the id of the last of them. -/
def Command.past (c : Command) (hosts : List String) (id : UInt32) : Command :=
  { c with
    hopByHopId := id
    avps := c.avps ++ hosts.map
      (fromUtf8String AvpCode.routeRecord.asU32 AvpFlags.mandatory.asU8 none) }

section
variable {fmt : TextFormats} {map : AvpMap} {c : Command} {name : String} {named : AvpJson}
  {values : List Json} {hosts : List String} {id : UInt32} {m : Message}

theorem arrives_past (hcode : map.ShowsHosts .routeRecord named) (h : c.Arrives fmt map) :
    (c.past hosts id).Arrives fmt map := by
  intro a ha
  rcases List.mem_append.mp ha with ha | ha
  · exact h a ha
  · obtain ⟨host, -, rfl⟩ := List.mem_map.mp ha
    exact ⟨_, arrivesAs_fromUtf8String hcode⟩

/-- The hosts are shown behind the Route-Records that were there. -/
theorem carries_past (hcode : map.ShowsHosts .routeRecord named)
    (h : c.Carries fmt map named.name values) :
    (c.past hosts id).Carries fmt map named.name (values ++ hosts.map .string) := by
  have hrecords : List.Forall₂ (fun a v => a.ArrivesAs fmt map (named.name, v))
      (hosts.map (fromUtf8String AvpCode.routeRecord.asU32 AvpFlags.mandatory.asU8 none))
      (hosts.map Json.string) := by
    rw [List.forall₂_map_left_iff, List.forall₂_map_right_iff, List.forall₂_same]
    exact fun host _ => arrivesAs_fromUtf8String hcode
  have hall : (hosts.map (fromUtf8String AvpCode.routeRecord.asU32 AvpFlags.mandatory.asU8
      none)).filter (·.name map = some named.name) = hosts.map
        (fromUtf8String AvpCode.routeRecord.asU32 AvpFlags.mandatory.asU8 none) := by
    rw [List.filter_eq_self]
    intro a ha
    obtain ⟨host, -, rfl⟩ := List.mem_map.mp ha
    exact decide_eq_true (name_fromUtf8String hcode)
  rw [Command.Carries, Command.past, List.filter_append, hall]
  exact List.rel_append h hrecords

theorem carries_past_of_ne (hcode : map.ShowsHosts .routeRecord named) (hne : name ≠ named.name)
    (h : c.Carries fmt map name values) : (c.past hosts id).Carries fmt map name values := by
  have hnone : (hosts.map (fromUtf8String AvpCode.routeRecord.asU32 AvpFlags.mandatory.asU8
      none)).filter (·.name map = some name) = [] := by
    rw [List.filter_eq_nil_iff]
    intro a ha heq
    obtain ⟨host, -, rfl⟩ := List.mem_map.mp ha
    exact hne (Option.some.inj ((of_decide_eq_true heq).symm.trans (name_fromUtf8String hcode)))
  rw [Command.Carries, Command.past, List.filter_append, hnone, List.append_nil]
  exact h

/-- The message of the request behind the hosts. -/
theorem command_through (hm : m.command = c.received)
    (hroom : recordsLength hosts < 2 ^ 24) :
    (m.through hosts id).command = (c.past hosts id).received := by
  let record (host : String) : Avp :=
    fromUtf8String AvpCode.routeRecord.asU32 AvpFlags.mandatory.asU8 none host
  have hrecord : ∀ host ∈ hosts, (WireAvp.routeRecord host).toAvp = (record host).received := by
    intro host hhost
    have hle : (WireAvp.routeRecord host).bytes.length ≤ recordsLength hosts :=
      List.le_sum_of_mem (List.mem_map_of_mem hhost)
    have hlength := (WireAvp.routeRecord host).length_bytes
    have hbody : (WireAvp.routeRecord host).length = 8 + host.toUTF8.data.toList.length := rfl
    have hfits : (headerLength (record host).flags).toNat + (record host).payload.length < 2 ^ 24 := by
      have hheader : (headerLength (record host).flags).toNat = 8 := new_headerLength _ _ _ _
      have hpayload : (record host).payload = host.toUTF8.data.toList := rfl
      rw [hheader, hpayload]
      omega
    exact (received_new hfits).symm
  calc (m.through hosts id).command
      = { m.command with
          hopByHopId := id
          avps := m.command.avps ++ hosts.map fun host => (WireAvp.routeRecord host).toAvp } := by
        simp [Message.through, Message.command]
    _ = { c.received with
          hopByHopId := id
          avps := c.received.avps ++ hosts.map fun host => (record host).received } := by
        rw [hm, List.map_congr_left hrecord]
    _ = (c.past hosts id).received := by
        simp [Command.received, Command.past, record]

end

/-! ### The backend -/

/-- What is posted is the given JSON. -/
def HttpCall.Shows (json : OrPanic Json) : HttpCall → Prop
  | post _ _ posted => json = some posted

section
variable {request : Command}

/-- The JSON form of a request at a handler. -/
def DefaultCommandHandler.shown (handler : DefaultCommandHandler) (request : Command) :
    OrPanic Json :=
  request.toJson handler.dictionaries.fmt.toFormats handler.dictionaries.commandMap
    handler.dictionaries.avpMap

theorem sendRequestTo_shows {handler : DefaultCommandHandler} {timeout : Nat} (urls : List String) :
    (RequestProcessor.sendRequestTo handler.dictionaries timeout request urls).Uses
      (HttpCall.Shows (handler.shown request)) := by
  induction urls with
  | nil => exact trivial
  | cons url urls ih =>
    unfold RequestProcessor.sendRequestTo
    split
    · exact trivial
    · rename_i json hjson
      refine ⟨hjson, fun reply => ?_⟩
      match reply with
      | .error _ => exact ih
      | .ok response =>
        show Program.Uses _ (if 200 ≤ response.status ∧ response.status < 400 then _ else _)
        split
        · split
          · exact trivial
          · exact ih
        · exact ih

/-- A handler posts its request, and nothing else. -/
theorem handleCommand_shows {handler : DefaultCommandHandler} :
    (handler.handleCommand request).Uses (HttpCall.Shows (handler.shown request)) := by
  have hwith : ∀ processors,
      (DefaultCommandHandler.handleWith handler.dictionaries request processors).Uses
        (HttpCall.Shows (handler.shown request)) := by
    intro processors
    induction processors with
    | nil => exact trivial
    | cons p processors ih =>
      unfold DefaultCommandHandler.handleWith
      split
      · refine (sendRequestTo_shows p.urls).bind fun result => ?_
        rcases result with _ | _ | _
        · exact trivial
        · exact ih
        · exact trivial
      · exact ih
  unfold DefaultCommandHandler.handleCommand
  split
  · exact hwith handler.requestProcessors
  · exact trivial

end

/-! ### From end to end -/

/-- The definitions under which hosts are recorded. -/
structure AvpMap.Routes (map : AvpMap) where
  originHost : AvpJson
  originRealm : AvpJson
  routeRecord : AvpJson
  showsHost : map.ShowsHosts .originHost originHost
  showsRealm : map.ShowsHosts .originRealm originRealm
  showsRecord : map.ShowsHosts .routeRecord routeRecord

/-- The values under a name behind a listener and some bridges: those of the body, with the
origin of the listener in front and the hosts of the bridges behind. -/
def AvpMap.Routes.carried {map : AvpMap} (routes : map.Routes) (host realm : String)
    (hosts : List String) (obj : List (String × Json)) (name : String) : List Json :=
  if name = routes.originHost.name then .string host :: (valuesUnder obj name).tail
  else if name = routes.originRealm.name then .string realm :: (valuesUnder obj name).tail
  else if name = routes.routeRecord.name then valuesUnder obj name ++ hosts.map .string
  else valuesUnder obj name

section
variable {fmt : TextFormats} {commandMap : CommandMap} {map : AvpMap} {obj : List (String × Json)}
  {d : CommandJson} {command : Command} {name host realm : String} {hosts : List String}
  {id : UInt32}

theorem AvpMap.ShowsHosts.name_ne {code code' : AvpCode} {named named' : AvpJson}
    (hmap : map.Bijective) (h : map.ShowsHosts code named) (h' : map.ShowsHosts code' named')
    (hne : code.asU32 ≠ code'.asU32) : named.name ≠ named'.name := by
  intro heq
  obtain ⟨hcode, hname⟩ := hmap.byCode _ _ h.byCode
  obtain ⟨hcode', hname'⟩ := hmap.byCode _ _ h'.byCode
  rw [heq, hname'] at hname
  exact hne (hcode.symm.trans ((congrArg AvpJson.code (Option.some.inj hname)).symm.trans hcode'))

/-- What a body has become at the end of the path. -/
theorem carries_carried (hfmt : fmt.ReadsBack) (hmap : map.Bijective) (routes : map.Routes)
    (hbody : PostedBody fmt map obj) (hd : Command.getCommandDefine fmt obj commandMap = some d)
    (h : Command.fromJsonValue fmt commandMap map (.object obj) = some (.ok command))
    (hname : name ∉ reservedNames) :
    (((command.setOriginHost host).setOriginRealm realm).past hosts id).Carries fmt map name
      (routes.carried host realm hosts obj name) := by
  have hposted : command.Carries fmt map name (valuesUnder obj name) :=
    values_of_fromJsonValue hfmt hmap hbody hd h hname
  unfold AvpMap.Routes.carried
  split
  · rename_i heq
    subst heq
    refine carries_past_of_ne routes.showsRecord
      (routes.showsHost.name_ne hmap routes.showsRecord (by decide)) ?_
    refine carries_setText_of_ne hmap routes.showsRealm
      (routes.showsHost.name_ne hmap routes.showsRealm (by decide)) ?_
    exact carries_setText hmap routes.showsHost hposted
  · rename_i hhost
    split
    · rename_i heq
      subst heq
      refine carries_past_of_ne routes.showsRecord
        (routes.showsRealm.name_ne hmap routes.showsRecord (by decide)) ?_
      refine carries_setText hmap routes.showsRealm ?_
      exact carries_setText_of_ne hmap routes.showsHost hhost hposted
    · rename_i hrealm
      have hset : ((command.setOriginHost host).setOriginRealm realm).Carries fmt map name
          (valuesUnder obj name) :=
        carries_setText_of_ne hmap routes.showsRealm hrealm
          (carries_setText_of_ne hmap routes.showsHost hhost hposted)
      split
      · rename_i heq
        subst heq
        exact carries_past routes.showsRecord hset
      · rename_i hrecord
        exact carries_past_of_ne routes.showsRecord hrecord hset

theorem length_encode_past {c : Command} (hroom : recordsLength hosts < 2 ^ 24) :
    (c.past hosts id).encode.length = c.encode.length + recordsLength hosts := by
  have hrecord : ∀ host ∈ hosts, (fromUtf8String AvpCode.routeRecord.asU32
      AvpFlags.mandatory.asU8 none host).encode = (WireAvp.routeRecord host).bytes := by
    intro host hhost
    have hle : (WireAvp.routeRecord host).bytes.length ≤ recordsLength hosts :=
      List.le_sum_of_mem (List.mem_map_of_mem hhost)
    have hlength := (WireAvp.routeRecord host).length_bytes
    exact (WireAvp.routeRecord host).encode_toAvp (by omega)
  have hrecords : (hosts.flatMap fun host => (WireAvp.routeRecord host).bytes).length =
      recordsLength hosts := List.length_flatMap
  rw [Command.length_encode, Command.length_encode, Command.past, List.flatMap_append,
    List.length_append, List.flatMap_map, List.flatMap_congr hrecord, hrecords]
  omega

/-- What a listener hands over, all of whose AVPs arrive. -/
theorem exists_of_handsOver {settings : SendSettings} {request : Command} (hfmt : fmt.ReadsBack)
    (hmap : map.Bijective) (routes : map.Routes) (hbody : PostedBody fmt map obj)
    (h : HandsOver fmt commandMap map settings host realm (.object obj) request) :
    request.Arrives fmt map ∧ ∀ hosts id, ∀ name ∉ reservedNames,
      (request.past hosts id).Carries fmt map name (routes.carried host realm hosts obj name) := by
  obtain ⟨command, hcommand, -, -, -, hopByHopId, endToEndId, rfl⟩ := handsOver_iff.mp h
  have harrives : command.Arrives fmt map := arrivesAs_of_mem hfmt hmap hbody hcommand
  cases hd : Command.getCommandDefine fmt obj commandMap with
  | none => simp [Command.fromJsonValue, hd] at hcommand
  | some d =>
    refine ⟨(harrives.setText routes.showsHost).setText routes.showsRealm, ?_⟩
    intro hosts id name hname
    have hcarried : (((command.setOriginHost host).setOriginRealm realm).past hosts id).Carries fmt
        map name (routes.carried host realm hosts obj name) :=
      carries_carried hfmt hmap routes hbody hd hcommand hname
    exact hcarried

/-- What is read at the end of a path. -/
theorem reads_past {ι : Type} {net : Network ι} {path : List ι} {request c : Command}
    {arrived reply returned : List UInt8} (hall : request.Arrives fmt map)
    (hcode : request.code.toNat < 2 ^ 24)
    (hroom : request.encode.length + recordsLength (path.map net.host) < 2 ^ 24)
    (hchain : net.Chain path request.encode arrived reply returned) (hread : Reads arrived c) :
    ∃ id, c = (request.past (path.map net.host) id).received ∧
      ∀ s : Message, reply = s.bytes → s.length < 2 ^ 24 → s.hopByHopId = id →
        returned = (s.back (path.map net.host) request.hopByHopId).bytes := by
  have hfits : ∀ a ∈ request.avps, Arrives a := fun a ha => by
    obtain ⟨p, hp⟩ := hall a ha
    exact arrives_of_mem hp.counted hp.vendor (by omega) ha
  obtain ⟨m, hm, hbytes, hlength⟩ := exists_message hcode hfits (by omega)
  have hhop : m.hopByHopId = request.hopByHopId := congrArg Command.hopByHopId hm
  rw [← hbytes] at hchain
  obtain ⟨-, -, id, rfl, hback⟩ := hchain.message (by omega)
  obtain rfl := hread.command (length_through ▸ by omega)
  exact ⟨id, command_through hm (by omega), hhop ▸ hback⟩

end

/-- **A request from REST client to backend.** A body of presented values is handed over by a
listener, passes the nodes of a path, and is posted by a handler at its end. Then what is posted
has, under each name outside the header, the values of the body: with the origin of the listener
in front of other origins, and the hosts of the path behind other Route-Records. The header is
that of the request, but for the hop-by-hop id. -/
theorem request_reaches_backend {ι : Type} {net : Network ι} {path : List ι} {fmt : TextFormats}
    {commandMap : CommandMap} {map : AvpMap} {settings : SendSettings} {host realm : String}
    {obj : List (String × Json)} {request c : Command} {arrived reply returned : List UInt8}
    {handler : DefaultCommandHandler} {exchange : List (Sigma HttpCall.Reply)}
    {q : HttpProc (OrPanic (Except String (Option Command)))} {url : String} {timeout : Nat}
    {json : Json} {response : Except String HttpResponse}
    (hfmt : fmt.ReadsBack) (hmap : map.Bijective) (routes : map.Routes)
    (hbody : PostedBody fmt map obj)
    (hrequest : HandsOver fmt commandMap map settings host realm (.object obj) request)
    (hcode : request.code.toNat < 2 ^ 24)
    (hroom : request.encode.length + recordsLength (path.map net.host) < 2 ^ 24)
    (hchain : net.Chain path request.encode arrived reply returned) (hread : Reads arrived c)
    (hsame : handler.dictionaries.fmt.toTextFormats = fmt ∧ handler.dictionaries.avpMap = map)
    (hexchange : (handler.handleCommand c).Reaches exchange q)
    (hpost : ⟨.post url timeout json, response⟩ ∈ exchange) :
    ∃ members, json = .object members ∧
      (∀ name ∉ reservedNames, Json.get members name =
        Json.gather (routes.carried host realm (path.map net.host) obj name)) ∧
      ∀ field ∈ headerFields request, field.1 ≠ "hop_by_hop_id" →
        Json.get members field.1 = some field.2 := by
  obtain ⟨hall, hcarried⟩ := exists_of_handsOver hfmt hmap routes hbody hrequest
  obtain ⟨id, rfl, -⟩ := reads_past hall hcode hroom hchain hread
  have hsize : (request.past (path.map net.host) id).encode.length < 2 ^ 24 := by
    rw [length_encode_past (by omega)]
    exact hroom
  obtain ⟨members, hjson, hentries, hfields⟩ := toJson_received hmap
    (arrives_past routes.showsRecord hall) hsize handler.dictionaries.commandMap
  have hshown : handler.shown _ = some json := handleCommand_shows.of_mem hexchange _ hpost
  rw [DefaultCommandHandler.shown, hsame.2, hsame.1, hjson] at hshown
  refine ⟨members, (Option.some.inj hshown).symm, fun name hname => ?_, fun field hfield hhop => ?_⟩
  · exact hentries name (not_mem_headerKeys hname) _ (hcarried _ id name hname)
  · refine hfields field ?_
    simp only [headerFields, List.mem_cons, List.not_mem_nil, or_false] at hfield ⊢
    rcases hfield with rfl | rfl | rfl | rfl | rfl
    · exact .inl rfl
    · exact .inr (.inl rfl)
    · exact absurd rfl hhop
    · exact .inr (.inr (.inr (.inl rfl)))
    · exact .inr (.inr (.inr (.inr rfl)))

/-! ### A request over one bridge -/

namespace RestToBackend

/-- A command whose definition leaves the order of AVPs open. -/
def definition : CommandJson := ⟨"Check-Request", "CHR", 316, 4, true, true, false, []⟩

def commandMap : CommandMap := .new (standardTexts true).toLowercase [definition]

/-- What a client posts. -/
def body : List (String × Json) :=
  [("Destination-Host", .string "peer"), ("Destination-Realm", .string "realm"),
    ("Origin-Host", .string "me"), ("code", .ofInt 316)]

/-- What the backend answers. -/
def reply : List (String × Json) := [("Origin-Host", .string "me"), ("Result-Code", .ofInt 2001)]

def replyText : String := "\x7b\"Origin-Host\":\"me\",\"Result-Code\":2001\x7d"

/-- Reads the one text. -/
def parseOnly (text : String) (obj : List (String × Json)) (s : String) : Except String Json :=
  if s = text then .ok (.object obj) else .error "expected value"

theorem parseOnly_text (text : String) (obj : List (String × Json)) :
    parseOnly text obj text = .ok (.object obj) :=
  if_pos rfl

def handler : DefaultCommandHandler :=
  { requestProcessors := [⟨[], [], ["http://backend"], 1000⟩]
    dictionaries :=
      { fmt := { standardTexts true with parseJson := parseOnly replyText reply }
        commandMap, avpMap := .new [] } }

def text (code : UInt32) (value : String) : WireAvp :=
  ⟨code, 0x40, none, value.toUTF8.data.toList, LoopDetection.vendor_request⟩

def success : WireAvp := ⟨268, 0x40, none, [0, 0, 7, 209], LoopDetection.vendor_request⟩

theorem code_lt : (316 : UInt32).toNat < 2 ^ 24 := by decide

/-- What the body makes. -/
def posted : Command :=
  { code := 316, flags := 0xC0, applicationId := 4, hopByHopId := 0, endToEndId := 0
    avps := [(text 293 "peer").toAvp, (text 283 "realm").toAvp, (text 264 "me").toAvp] }

/-- What the listener sends for it. -/
def request : Message :=
  { flags := 0xC0, code := 316, applicationId := 4, hopByHopId := 7, endToEndId := 9
    avps := [text 293 "peer", text 283 "realm", text 264 "gateway", text 296 "example.org"]
    code_lt }

/-- What the bridge sends for it. -/
def relayed : Message := request.forwarded "bridge" 0

/-- What the reply makes. -/
def read : Command :=
  { code := 316, flags := 0xC0, applicationId := 4, hopByHopId := 0, endToEndId := 0
    avps := [(text 264 "me").toAvp, success.toAvp] }

/-- What the handler sends for it. -/
def answer : Message :=
  { flags := 0x40, code := 316, applicationId := 4, hopByHopId := 0, endToEndId := 9
    avps := [text 264 "peer", success, text 296 "realm"]
    code_lt }

def routes : (AvpMap.new []).Routes where
  originHost := ⟨"Origin-Host", 264, .diameterIdentity, true, none⟩
  originRealm := ⟨"Origin-Realm", 296, .diameterIdentity, true, none⟩
  routeRecord := ⟨"Route-Record", 282, .diameterIdentity, true, none⟩
  showsHost := ⟨rfl, rfl⟩
  showsRealm := ⟨rfl, rfl⟩
  showsRecord := ⟨rfl, rfl⟩

theorem sortAvps_definition (map : AvpMap) (avps : List Avp) : definition.sortAvps map avps = avps :=
  List.mergeSort_of_pairwise (List.pairwise_of_forall fun _ _ => decide_eq_true (Nat.le_refl _))

theorem fromJsonValue_body : Command.fromJsonValue (standardTexts true) commandMap (.new [])
    (.object body) = some (.ok posted) := by
  have hsorted : { posted with avps := definition.sortAvps (.new []) posted.avps } = posted := by
    rw [sortAvps_definition]
  rw [← hsorted]
  rfl

theorem fromJsonValue_reply : Command.fromJsonValue (standardTexts true) commandMap (.new [])
    (.object (withCode relayed.command reply)) = some (.ok read) := by
  have hsorted : { read with avps := definition.sortAvps (.new []) read.avps } = read := by
    rw [sortAvps_definition]
  rw [← hsorted]
  rfl

/-- The text of an AVP that is found. -/
theorem getText_text {c : Command} {code : AvpCode} {value : String}
    (h : c.getAvp code.asU32 = some (text code.asU32 value).toAvp) : c.getText code = some value := by
  rw [Command.getText, h]
  exact fromUTF8_eq_some_iff.mpr rfl

theorem handsOver_request : HandsOver (standardTexts true) commandMap (.new []) ⟨1000, 5000, []⟩
    "gateway" "example.org" (.object body) request.command := by
  have hhost : posted.getDestinationHost = some "peer" := getText_text rfl
  have hrealm : posted.getDestinationRealm = some "realm" := getText_text rfl
  exact handsOver_iff.mpr ⟨posted, fromJsonValue_body, by rw [hhost]; rfl, by rw [hrealm]; rfl, rfl,
    7, 9, rfl⟩

theorem createAnswer_reply :
    RequestProcessor.createAnswer handler.dictionaries replyText relayed.command =
      some (.ok answer.command) := by
  have hhost : relayed.command.getDestinationHost = some "peer" := getText_text rfl
  have hrealm : relayed.command.getDestinationRealm = some "realm" := getText_text rfl
  have hread : Command.fromJsonValue handler.dictionaries.fmt.toTextFormats
      handler.dictionaries.commandMap handler.dictionaries.avpMap
      (.object (withCode relayed.command reply)) = some (.ok read) := fromJsonValue_reply
  have hparse : handler.dictionaries.fmt.parseJson replyText = .ok (.object reply) :=
    parseOnly_text replyText reply
  rw [RequestProcessor.createAnswer, hparse]
  dsimp only
  rw [hread]
  dsimp only
  rw [Command.answering, hhost, hrealm]
  rfl

theorem relays_request : Network.bridges.Relays false request.command.encode relayed.bytes
    answer.command.encode (answer.command.returned "bridge" 7).encode := by
  have hhost : request.command.getDestinationHost = some "peer" := getText_text rfl
  have hmine : Relay.context.isMyCommand request.command = false := by
    rw [CommandProcessorContext.isMyCommand, hhost]
    rfl
  have hrelays : Network.bridges.Relays false request.bytes
      (request.command.forwarded "bridge" 0).encode answer.bytes
      (answer.command.returned "bridge" 7).encode :=
    Network.relays_bridge rfl (by decide) (by decide) rfl ⟨by decide, by decide⟩ rfl hmine rfl
      ⟨by decide, by decide⟩ rfl
  have hrelayed : (request.command.forwarded "bridge" 0).encode = relayed.bytes := by
    rw [← command_forwarded]
    exact Message.encode_command (by decide)
  rw [hrelayed] at hrelays
  rwa [Message.encode_command (by decide), Message.encode_command (by decide)]

/-- A member with one value that is no array. -/
theorem postedEntry_of_presented {fmt : TextFormats} {map : AvpMap} {name : String} {v : Json}
    (hitems : v.items = [v]) (hgather : Json.gather [v] = some v) (h : Presented fmt map name v) :
    PostedEntry fmt map (name, v) := by
  refine ⟨fun item hitem => ?_, hitems ▸ hgather⟩
  obtain rfl : item = v := by simpa [hitems] using hitem
  exact h

theorem postedBody_body : PostedBody (standardTexts true) (.new []) body := by
  have hhost : (AvpMap.new []).getByName "Destination-Host" =
      some ⟨"Destination-Host", 293, .diameterIdentity, true, none⟩ := rfl
  have hrealm : (AvpMap.new []).getByName "Destination-Realm" =
      some ⟨"Destination-Realm", 283, .diameterIdentity, true, none⟩ := rfl
  have horigin : (AvpMap.new []).getByName "Origin-Host" = some routes.originHost := rfl
  refine ⟨by decide, fun m hm hname => ?_⟩
  simp only [body, List.mem_cons, List.not_mem_nil, or_false] at hm
  rcases hm with rfl | rfl | rfl | rfl
  · exact postedEntry_of_presented rfl rfl (.scalar hhost trivial)
  · exact postedEntry_of_presented rfl rfl (.scalar hrealm trivial)
  · exact postedEntry_of_presented rfl rfl (.scalar horigin trivial)
  · exact absurd (by simp [reservedNames, headerNames]) hname

theorem postedBody_reply : PostedBody (standardTexts true) (.new []) reply := by
  have horigin : (AvpMap.new []).getByName "Origin-Host" = some routes.originHost := rfl
  have hresult : (AvpMap.new []).getByName "Result-Code" =
      some ⟨"Result-Code", 268, .unsigned32, true, none⟩ := rfl
  have hrange : AvpType.unsigned32.InRange 2001 :=
    (by decide : (0 : Int) ≤ 2001 ∧ (2001 : Int) < 2 ^ 32)
  refine ⟨by decide, fun m hm _ => ?_⟩
  simp only [reply, List.mem_cons, List.not_mem_nil, or_false] at hm
  rcases hm with rfl | rfl
  · exact postedEntry_of_presented rfl rfl (.scalar horigin trivial)
  · exact postedEntry_of_presented rfl rfl (.scalar hresult hrange)

theorem reads_relayed : Reads relayed.bytes relayed.command :=
  Message.encode_command (m := relayed) (by decide) ▸ reads_message (by decide)

/-- The handler posts the request, and gets the reply. -/
theorem reaches_answer : ∃ json, (handler.handleCommand relayed.command).Reaches
    [⟨.post "http://backend" 1000 json, .ok ⟨200, .ok replyText⟩⟩]
    (.ret (some (.ok (some answer.command)))) := by
  obtain ⟨hall, -⟩ := exists_of_handsOver (lawful_standardTexts true).toReadsBack bijective_standard
    routes postedBody_body handsOver_request
  obtain ⟨id, hid, -⟩ := reads_past hall (by decide) (by decide)
    (.relay relays_request (.arrive _ _)) reads_relayed
  have hsize : (request.command.past ([false].map Network.bridges.host) id).encode.length < 2 ^ 24 := by
    rw [length_encode_past (by decide)]
    decide
  obtain ⟨members, hjson, -⟩ := toJson_received bijective_standard
    (arrives_past routes.showsRecord hall) hsize commandMap
  rw [← hid] at hjson
  refine ⟨.object members, ?_⟩
  have hprogram : ∃ next, handler.handleCommand relayed.command = Program.bind
      (RequestProcessor.sendRequestTo handler.dictionaries 1000 relayed.command ["http://backend"])
      next ∧ ∀ answer, next (some (.ok answer)) = .ret (some (.ok (some answer))) :=
    ⟨_, rfl, fun _ => rfl⟩
  obtain ⟨next, hprogram, hnext⟩ := hprogram
  have hshown : relayed.command.toJson handler.dictionaries.fmt.toFormats
      handler.dictionaries.commandMap handler.dictionaries.avpMap = some (.object members) := hjson
  rw [hprogram, RequestProcessor.sendRequestTo, hshown]
  refine .cons ?_
  show Reaches
    (next (RequestProcessor.createAnswer handler.dictionaries replyText relayed.command)) _ _
  rw [createAnswer_reply, hnext]
  exact .refl _

/-- The origin is that of the listener, and the bridge has left its Route-Record. -/
theorem request_reaches_backend_relayed : ∃ members,
    (handler.handleCommand relayed.command).Reaches
      [⟨.post "http://backend" 1000 (.object members), .ok ⟨200, .ok replyText⟩⟩]
      (.ret (some (.ok (some answer.command)))) ∧
    Json.get members "Origin-Host" = some (.string "gateway") ∧
    Json.get members "Route-Record" = some (.string "bridge") ∧
    Json.get members "end_to_end_id" = some (.ofInt 9) := by
  obtain ⟨json, hexchange⟩ := reaches_answer
  obtain ⟨members, rfl, hentries, hfields⟩ := request_reaches_backend
    (lawful_standardTexts true).toReadsBack bijective_standard routes postedBody_body handsOver_request
    (by decide) (by decide) (.relay relays_request (.arrive _ _)) reads_relayed ⟨rfl, rfl⟩ hexchange
    List.mem_cons_self
  refine ⟨members, hexchange, ?_, ?_, ?_⟩
  · rw [hentries "Origin-Host" (by decide)]
    rfl
  · rw [hentries "Route-Record" (by decide)]
    rfl
  · exact hfields ("end_to_end_id", .ofInt 9) (by simp [headerFields]; rfl) (by decide)

end RestToBackend

end RestDiameterBridge
