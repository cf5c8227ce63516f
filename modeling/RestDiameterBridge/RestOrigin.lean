import RestDiameterBridge.CommandAvpOrder
import RestDiameterBridge.HttpRestListener

/-!
# RestDiameterBridge.RestOrigin

The origin of the requests that the REST listener sends (`handle_diameter_request` in
`src/http_rest_listener.rs`).

The listener sets Origin-Host and Origin-Realm to its own host and realm. A setter changes
the first AVP with the code, or adds one (`getAvps_setAvp`), so what a body says twice is
sent with the second value: `ownsOrigin_iff` says for which bodies the origin is the
listener's alone.
-/

namespace RestDiameterBridge

open Program

/-- There is one AVP with the code, and it holds the text. -/
def Command.OwnsText (c : Command) (code : AvpCode) (value : String) : Prop :=
  ∃ a, c.getAvps code.asU32 = [a] ∧ a.asUtf8String = some value

/-- The command has one Origin-Host and one Origin-Realm, with this host and this realm. -/
def Command.OwnsOrigin (c : Command) (host realm : String) : Prop :=
  c.OwnsText .originHost host ∧ c.OwnsText .originRealm realm

/-- The entries of a body that make an AVP with the code. -/
def entriesFor (fmt : TextFormats) (map : AvpMap) (code : AvpCode) (obj : List (String × Json)) :
    List (String × Json) :=
  (bodyEntries obj).filter fun e =>
    map.nameCode e.1 = some code.asU32 ∧ (convertEntry fmt map e).isSome

/-- In a run for the body the listener hands the request to `send_request`, which begins by
asking for its connections. -/
def HandsOver (fmt : TextFormats) (commandMap : CommandMap) (map : AvpMap)
    (settings : SendSettings) (host realm : String) (body : Json) (request : Command) : Prop :=
  ∃ command trace q connections,
    Command.fromJsonValue fmt commandMap map body = some (.ok command) ∧
      (handleDiameterRequest settings host realm command).Reaches trace q ∧
      ⟨.getConnectionsForRequest request, connections⟩ ∈ trace

/-! ### The setters -/

section
variable {c : Command} {code : AvpCode} {value : String}

/-- A setter leaves its text alone exactly if it found at most one AVP. -/
theorem ownsText_setText_iff :
    (c.setText code value).OwnsText code value ↔ (c.getAvps code.asU32).length ≤ 1 := by
  have hset : (c.setText code value).getAvps code.asU32 = _ :=
    Command.getAvps_setAvp (fun _ => rfl) rfl
  rw [Command.OwnsText, hset]
  cases c.getAvps code.asU32 with
  | nil => simp
  | cons a rest =>
    have htext : (a.setUtf8String value).asUtf8String = some value :=
      Avp.fromUTF8_eq_some_iff.mpr rfl
    simp [htext]

/-- The AVPs of other codes are none of its business. -/
theorem getAvps_setText_of_ne {other : AvpCode} (hne : other.asU32 ≠ code.asU32) :
    (c.setText code value).getAvps other.asU32 = c.getAvps other.asU32 :=
  Command.getAvps_setAvp_of_ne hne (fun _ => rfl) rfl

theorem ownsText_setText_of_ne {other : AvpCode} {text : String} (hne : other.asU32 ≠ code.asU32) :
    (c.setText code value).OwnsText other text ↔ c.OwnsText other text := by
  rw [Command.OwnsText, Command.OwnsText, getAvps_setText_of_ne hne]

/-- Both setters together. -/
theorem ownsOrigin_setOrigin_iff {host realm : String} :
    ((c.setOriginHost host).setOriginRealm realm).OwnsOrigin host realm ↔
      (c.getAvps AvpCode.originHost.asU32).length ≤ 1 ∧
        (c.getAvps AvpCode.originRealm.asU32).length ≤ 1 := by
  have hhost : ((c.setOriginHost host).setOriginRealm realm).OwnsText .originHost host ↔
      (c.getAvps AvpCode.originHost.asU32).length ≤ 1 :=
    (ownsText_setText_of_ne (by decide)).trans ownsText_setText_iff
  have hrealm : ((c.setOriginHost host).setOriginRealm realm).OwnsText .originRealm realm ↔
      (c.getAvps AvpCode.originRealm.asU32).length ≤ 1 := by
    refine ownsText_setText_iff.trans ?_
    rw [Command.setOriginHost, getAvps_setText_of_ne (by decide)]
  exact and_congr hhost hrealm

end

/-! ### The run -/

/-- The call asks for no connections but those for requests of a kind. -/
def Call.Asks (P : Command → Prop) (c : Call) : Prop :=
  ∀ request, c = .getConnectionsForRequest request → P request

section
variable {fmt : TextFormats} {commandMap : CommandMap} {map : AvpMap} {settings : SendSettings}
  {host realm : String} {body : Json} {request command : Command}

theorem sendRequest_asks {P : Command → Prop} (h : P request) :
    (sendRequest settings request).Uses (Call.Asks P) := by
  have htries : ∀ c, Call.Tries request c → c.Asks P := by
    rintro c hc _ rfl
    exact hc.elim
  refine ⟨?_, fun found => ?_⟩
  · rintro _ ⟨⟩
    exact h
  · match found with
    | .error _ => exact trivial
    | .ok connections =>
      refine ⟨by rintro _ ⟨⟩, fun _ => (sendRequestVia_uses connections).mono htries⟩

/-- What is sent of a command that has a destination and is a request. -/
theorem handleDiameterRequest_asks :
    (handleDiameterRequest settings host realm command).Uses <| Call.Asks fun request =>
      command.getDestinationHost.isSome ∧ command.getDestinationRealm.isSome ∧
      command.isRequest ∧ ∃ hopByHopId endToEndId,
        request = { (command.setOriginHost host).setOriginRealm realm with
          hopByHopId, endToEndId } := by
  unfold handleDiameterRequest
  split
  · exact trivial
  · rename_i hdestination
    simp only [not_or, Bool.not_eq_true, Option.isNone_eq_false_iff] at hdestination
    refine ⟨by rintro _ ⟨⟩, fun hopByHopId => ⟨by rintro _ ⟨⟩, fun endToEndId => ?_⟩⟩
    show Program.Uses _ (if (!((command.setOriginHost host).setOriginRealm realm).isRequest) = true
      then _ else _)
    rw [Command.isRequest_setOrigin]
    split
    · exact trivial
    · rename_i hkind
      refine (Proc.prepareForAnswer_uses.mono ?_).bind fun _ =>
        (sendRequest_asks ?_).bind fun result => ?_
      · intro c hc request heq
        subst heq
        rcases hc with hclean | ⟨timeout, heq⟩
        · exact hclean.elim
        · cases heq
      · exact ⟨hdestination.1, hdestination.2, by simpa using hkind, hopByHopId, endToEndId, rfl⟩
      · match result with
        | .ok _ | .error _ => exact trivial

/-- A request is handed over exactly if the body makes a request with a destination: it is
that request with the origin of the listener and new identifiers. -/
theorem handsOver_iff : HandsOver fmt commandMap map settings host realm body request ↔
    ∃ command, Command.fromJsonValue fmt commandMap map body = some (.ok command) ∧
      command.getDestinationHost.isSome ∧ command.getDestinationRealm.isSome ∧
      command.isRequest ∧ ∃ hopByHopId endToEndId,
        request = { (command.setOriginHost host).setOriginRealm realm with
          hopByHopId, endToEndId } := by
  constructor
  · intro hexists
    obtain ⟨command, trace, q, connections, hcommand, hreach, hmem⟩ := hexists
    exact ⟨command, hcommand, handleDiameterRequest_asks.of_mem hreach _ hmem request rfl⟩
  · intro hexists
    obtain ⟨command, hcommand, hhost, hrealm, hkind, hopByHopId, endToEndId, rfl⟩ := hexists
    have hrun : ∃ q, (handleDiameterRequest settings host realm command).Reaches
        [⟨.nextId, hopByHopId⟩, ⟨.nextEndToEndId, endToEndId⟩,
          ⟨.now, 0⟩, ⟨.answersDue 0, false⟩, ⟨.now, 0⟩,
          ⟨.prepareForAnswer 60000 hopByHopId "" host realm, ()⟩,
          ⟨.getConnectionsForRequest { (command.setOriginHost host).setOriginRealm realm with
            hopByHopId, endToEndId }, .ok []⟩] q := by
      unfold handleDiameterRequest
      rw [if_neg (by simp [Option.isSome_iff_ne_none.mp, hhost, hrealm])]
      refine exists_reaches_call (exists_reaches_call ?_)
      show ∃ q, Program.Reaches (if (!((command.setOriginHost host).setOriginRealm
        realm).isRequest) = true then _ else _) _ q
      rw [Command.isRequest_setOrigin, if_neg (by simp [hkind])]
      -- no clean-up is due
      exact exists_reaches_call (exists_reaches_call (exists_reaches_call
        (exists_reaches_call (exists_reaches_call ⟨_, .refl _⟩))))
    obtain ⟨q, hq⟩ := hrun
    exact ⟨command, _, q, _, hcommand, hq, List.mem_of_getLast? rfl⟩

/-! ### What a body says -/

/-- A command has as many AVPs of a code as the body has entries for it. -/
theorem length_getAvps_of_fromJsonValue {obj : List (String × Json)} (code : AvpCode)
    (h : Command.fromJsonValue fmt commandMap map (.object obj) = some (.ok command)) :
    (command.getAvps code.asU32).length = (entriesFor fmt map code obj).length := by
  have hperm := (fromJsonValue_avps h).filter (·.code == code.asU32)
  rw [flatMap_memberAvps] at hperm
  rw [Command.getAvps, hperm.length_eq, bodyAvps, entriesFor]
  induction bodyEntries obj with
  | nil => rfl
  | cons e entries ih =>
    rw [List.filterMap_cons, List.filter_cons]
    cases ha : convertEntry fmt map e with
    | none => simpa using ih
    | some a =>
      have hcode := nameCode_of_convertEntry ha
      by_cases heq : a.code = code.asU32
      · simp [hcode, heq, ih]
      · simp [hcode, heq, ih]

/-- A text that only one entry gives is that of the command. -/
theorem getText_of_fromJsonValue {obj : List (String × Json)} {code : AvpCode} {a : Avp}
    (h : Command.fromJsonValue fmt commandMap map (.object obj) = some (.ok command))
    (ha : (bodyAvps fmt map obj).filter (·.code == code.asU32) = [a]) :
    command.getText code = a.asUtf8String := by
  have hperm := (fromJsonValue_avps h).filter (·.code == code.asU32)
  rw [flatMap_memberAvps, ha, List.perm_singleton] at hperm
  rw [Command.getText, Command.getAvp, ← List.head?_filter, hperm]
  rfl

end

/-- **When a REST request has the origin of the listener.** A request that the listener
hands over for a body has one Origin-Host and one Origin-Realm, of the listener, exactly if
at most one entry of the body makes an Origin-Host, and at most one an Origin-Realm. The
elements of an array are entries of their own, and a generic name counts for its code. -/
theorem ownsOrigin_iff (fmt : TextFormats) (commandMap : CommandMap) (map : AvpMap)
    (settings : SendSettings) (host realm : String) (body : Json) (request : Command)
    (h : HandsOver fmt commandMap map settings host realm body request) :
    ∃ obj, body = .object obj ∧ (request.OwnsOrigin host realm ↔
      (entriesFor fmt map .originHost obj).length ≤ 1 ∧
        (entriesFor fmt map .originRealm obj).length ≤ 1) := by
  obtain ⟨command, hcommand, -, -, -, hopByHopId, endToEndId, rfl⟩ := handsOver_iff.mp h
  cases body with
  | object obj =>
    refine ⟨obj, rfl, ?_⟩
    rw [← length_getAvps_of_fromJsonValue .originHost hcommand,
      ← length_getAvps_of_fromJsonValue .originRealm hcommand]
    exact ownsOrigin_setOrigin_iff
  | _ => simp [Command.fromJsonValue] at hcommand

/-- An accounting request with a destination, and some Origin-Host. -/
def originBody (originHost : Json) : Json :=
  .object [("Destination-Host", .string "peer"), ("Destination-Realm", .string "realm"),
    ("Origin-Host", originHost), ("code", .ofInt 271)]

/-- A text AVP as the dictionary defines the destination. -/
def destination (code : UInt32) (value : String) : Avp := .fromUtf8String code 0x40 none value

/-- Two values for the Origin-Host. -/
def twoHosts : Json := .array [.string "a", .string "b"]

/-- The listener hands a request over, be it one host or two. -/
theorem exists_handsOver_originBody {originHost : Json}
    (h : originHost = .string "a" ∨ originHost = twoHosts) :
    ∃ request, HandsOver (standardTexts true) (.new (standardTexts true).toLowercase []) (.new [])
      ⟨1000, 5000, []⟩ "gateway" "example.org" (originBody originHost) request := by
  have hcommand : ∃ c, Command.fromJsonValue (standardTexts true)
      (.new (standardTexts true).toLowercase []) (.new []) (originBody originHost) = some (.ok c) ∧
        c.isRequest := by
    rcases h with rfl | rfl <;> exact ⟨_, rfl, rfl⟩
  obtain ⟨c, hc, hkind⟩ := hcommand
  have hhost : c.getDestinationHost = (destination 293 "peer").asUtf8String :=
    getText_of_fromJsonValue hc (by rcases h with rfl | rfl <;> rfl)
  have hrealm : c.getDestinationRealm = (destination 283 "realm").asUtf8String :=
    getText_of_fromJsonValue hc (by rcases h with rfl | rfl <;> rfl)
  rw [destination, Avp.asUtf8String_fromUtf8String] at hhost hrealm
  exact ⟨_, handsOver_iff.mpr ⟨c, hc, by rw [hhost]; rfl, by rw [hrealm]; rfl, hkind, 0, 0, rfl⟩⟩

theorem ownsOrigin_iff_oneHost :
    ∃ request, HandsOver (standardTexts true) (.new (standardTexts true).toLowercase []) (.new [])
        ⟨1000, 5000, []⟩ "gateway" "example.org" (originBody (.string "a")) request ∧
      request.OwnsOrigin "gateway" "example.org" := by
  obtain ⟨request, h⟩ := exists_handsOver_originBody (.inl rfl)
  obtain ⟨obj, hobj, hiff⟩ := ownsOrigin_iff _ _ _ _ _ _ _ _ h
  obtain rfl := Json.object.inj hobj
  exact ⟨request, h, hiff.mpr (by decide +kernel)⟩

/-- The second host of the body is sent to the peer. -/
theorem not_ownsOrigin_twoHosts :
    ∃ request, HandsOver (standardTexts true) (.new (standardTexts true).toLowercase []) (.new [])
        ⟨1000, 5000, []⟩ "gateway" "example.org" (originBody twoHosts) request ∧
      ¬request.OwnsOrigin "gateway" "example.org" := by
  obtain ⟨request, h⟩ := exists_handsOver_originBody (.inr rfl)
  refine ⟨request, h, fun howns => ?_⟩
  obtain ⟨command, hcommand, -, -, -, hopByHopId, endToEndId, rfl⟩ := handsOver_iff.mp h
  have hfound := (ownsOrigin_setOrigin_iff.mp howns).1
  rw [length_getAvps_of_fromJsonValue .originHost hcommand] at hfound
  exact absurd hfound (by decide +kernel)

end RestDiameterBridge
