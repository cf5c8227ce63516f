import RestDiameterBridge.CommandJson

/-!
# RestDiameterBridge.CommandDictionary

The command dictionary (`CommandJson`, `CommandMap` in `src/command.rs`): the built-in
definitions, and those of the configuration behind them. A code has any number of
definitions, of which the first of the wanted kind counts; of the definitions of a name
the last one counts.
-/

namespace RestDiameterBridge

/-- The built-in definitions. -/
def standardCommands : List CommandJson := [
  ⟨"Abort-Session-Request", "ASR", 274, 0, true, true, false,
    ["Session-Id", "Origin-Host", "Origin-Realm", "Destination-Realm", "Destination-Host",
      "Auth-Application-Id", "User-Name", "Origin-State-Id", "Proxy-Info", "Route-Record"]⟩,
  ⟨"Abort-Session-Answer", "ASA", 274, 0, false, true, false,
    ["Session-Id", "Result-Code", "Origin-Host", "Origin-Realm", "User-Name", "Origin-State-Id",
      "Error-Message", "Error-Reporting-Host", "Failed-AVP", "Redirect-Host",
      "Redirect-Host-Usage", "Redirect-Max-Cache-Time", "Proxy-Info"]⟩,
  ⟨"Accounting-Request", "ACR", 271, 0, true, true, false,
    ["Session-Id", "Origin-Host", "Origin-Realm", "Destination-Realm", "Accounting-Record-Type",
      "Accounting-Record-Number", "Acct-Application-Id", "Vendor-Specific-Application-Id",
      "User-Name", "Destination-Host", "Accounting-Sub-Session-Id", "Accounting-Session-Id",
      "Acct-Multi-Session-Id", "Acct-Interim-Interval", "Accounting-Realtime-Required",
      "Origin-State-Id", "Event-Timestamp", "Proxy-Info", "Route-Record"]⟩,
  ⟨"Accounting-Answer", "ACA", 271, 0, false, true, false,
    ["Session-Id", "Result-Code", "Origin-Host", "Origin-Realm", "Accounting-Record-Type",
      "Accounting-Record-Number", "Acct-Application-Id", "Vendor-Specific-Application-Id",
      "User-Name", "Accounting-Sub-Session-Id", "Acct-Session-Id", "Acct-Multi-Session-Id",
      "Error-Message", "Error-Reporting-Host", "Failed-AVP", "Acct-Interim-Interval",
      "Accounting-Realtime-Required", "Origin-State-Id", "Event-Timestamp", "Proxy-Info"]⟩,
  ⟨"Capabilities-Exchange-Request", "CER", 257, 0, true, true, false,
    ["Origin-Host", "Origin-Realm", "Host-IP-Address", "Vendor-Id", "Product-Name",
      "Origin-State-Id", "Supported-Vendor-Id", "Auth-Application-Id", "Inband-Security-Id",
      "Acct-Application-Id", "Vendor-Specific-Application-Id", "Firmware-Revision"]⟩,
  ⟨"Capabilities-Exchange-Answer", "CEA", 257, 0, false, true, false,
    ["Result-Code", "Origin-Host", "Origin-Realm", "Host-IP-Address", "Vendor-Id", "Product-Name",
      "Origin-State-Id", "Error-Message", "Failed-AVP", "Supported-Vendor-Id",
      "Auth-Application-Id", "Inband-Security-Id", "Acct-Application-Id",
      "Vendor-Specific-Application-Id", "Firmware-Revision"]⟩,
  ⟨"Device-Watchdog-Request", "DWR", 280, 0, true, true, false,
    ["Origin-Host", "Origin-Realm", "Origin-State-Id"]⟩,
  ⟨"Device-Watchdog-Answer", "DWA", 280, 0, false, true, false,
    ["Result-Code", "Origin-Host", "Origin-Realm", "Error-Message", "Failed-AVP",
      "Origin-State-Id"]⟩,
  ⟨"Disconnect-Peer-Request", "DPR", 282, 0, true, true, false,
    ["Origin-Host", "Origin-Realm", "Disconnect-Cause"]⟩,
  ⟨"Disconnect-Peer-Answer", "DPA", 282, 0, false, true, false,
    ["Result-Code", "Origin-Host", "Origin-Realm", "Error-Message", "Failed-AVP"]⟩,
  ⟨"Re-Auth-Request", "RAR", 258, 0, true, true, false,
    ["Session-Id", "Origin-Host", "Origin-Realm", "Destination-Realm", "Destination-Host",
      "Auth-Application-Id", "Re-Auth-Request-Type", "User-Name", "Origin-State-Id", "Proxy-Info",
      "Route-Record"]⟩,
  ⟨"Re-Auth-Answer", "RAA", 258, 0, false, true, false,
    ["Session-Id", "Result-Code", "Origin-Host", "Origin-Realm", "User-Name", "Origin-State-Id",
      "Error-Message", "Error-Reporting-Host", "Failed-AVP", "Redirect-Host",
      "Redirect-Host-Usage", "Redirect-Max-Cache-Time", "Proxy-Info"]⟩,
  ⟨"Session-Termination-Request", "STR", 275, 0, true, true, false,
    ["Session-Id", "Origin-Host", "Origin-Realm", "Destination-Realm", "Auth-Application-Id",
      "Termination-Cause", "User-Name", "Destination-Host", "Class", "Origin-State-Id",
      "Proxy-Info", "Route-Record"]⟩,
  ⟨"Session-Termination-Answer", "STA", 275, 0, false, true, false,
    ["Session-Id", "Result-Code", "Origin-Host", "Origin-Realm", "User-Name", "Class",
      "Error-Message", "Error-Reporting-Host", "Failed-AVP", "Origin-State-Id", "Redirect-Host",
      "Redirect-Host-Usage", "Redirect-Max-Cache-Time", "Proxy-Info"]⟩]

namespace CommandMap

/-- Add a definition. Names are kept in lower case. -/
def addCommand (toLowercase : String → String) (map : CommandMap) (cmd : CommandJson) :
    CommandMap :=
  { codeToCommand := map.codeToCommand.insert cmd.code
      ((map.codeToCommand.lookup cmd.code).getD [] ++ [cmd])
    nameToCommand := (map.nameToCommand.insert (toLowercase cmd.longName) cmd).insert
      (toLowercase cmd.shortName) cmd }

/-- The built-in definitions and the given ones. -/
def new (toLowercase : String → String) (commands : List CommandJson) : CommandMap :=
  (standardCommands ++ commands).foldl (addCommand toLowercase)
    { codeToCommand := ∅, nameToCommand := ∅ }

/-- The definition of a long or a short name. -/
def getByName (toLowercase : String → String) (map : CommandMap) (name : String) :
    Option CommandJson :=
  map.nameToCommand.lookup (toLowercase name)

/-- The definitions of a code have that code. -/
def CodesFit (map : CommandMap) : Prop :=
  ∀ code commands, map.codeToCommand.lookup code = some commands → ∀ d ∈ commands, d.code = code

section
variable {toLowercase : String → String} {map : CommandMap} {code : UInt32} {request : Bool}
  {d : CommandJson}

theorem CodesFit.addCommand (h : map.CodesFit) (cmd : CommandJson) :
    (map.addCommand toLowercase cmd).CodesFit := by
  intro code commands hlookup d hd
  by_cases hcode : code = cmd.code
  · subst hcode
    obtain rfl : _ = commands := by simpa [CommandMap.addCommand] using hlookup
    rcases List.mem_append.mp hd with hd | hd
    · cases hold : map.codeToCommand.lookup cmd.code with
      | none => simp [hold] at hd
      | some old => exact h _ old hold d (by simpa [hold] using hd)
    · rw [List.mem_singleton.mp hd]
  · refine h code commands ?_ d hd
    simpa [CommandMap.addCommand, AList.lookup_insert_ne hcode] using hlookup

theorem codesFit_new (commands : List CommandJson) : (new toLowercase commands).CodesFit := by
  have hfold : ∀ (commands : List CommandJson) (map : CommandMap), map.CodesFit →
      (commands.foldl (CommandMap.addCommand toLowercase) map).CodesFit := by
    intro commands
    induction commands with
    | nil => exact fun map h => h
    | cons cmd commands ih => exact fun map h => ih _ (h.addCommand cmd)
  exact hfold _ _ fun code commands hlookup => by simp at hlookup

/-- The definition found has the code and the kind that were looked for. -/
theorem CodesFit.getByCode (h : map.CodesFit) (hd : map.getByCode code request = some d) :
    d.code = code ∧ d.request = request := by
  obtain ⟨commands, hlookup, hfind⟩ := Option.bind_eq_some_iff.mp hd
  exact ⟨h code commands hlookup d (List.mem_of_find?_eq_some hfind),
    by simpa using List.find?_some hfind⟩

end

/-! ### Which definition counts -/

/-- Does the definition have the name, in any letter case? -/
def Uses (toLowercase : String → String) (d : CommandJson) (name : String) : Prop :=
  toLowercase d.longName = toLowercase name ∨ toLowercase d.shortName = toLowercase name

/-- Is the definition one for the code and the kind of message? -/
def defines (code : UInt32) (request : Bool) (d : CommandJson) : Bool :=
  d.code = code && d.request = request

section
variable {toLowercase : String → String} {map : CommandMap} {code : UInt32} {request : Bool}
  {name : String} {d cmd : CommandJson}

theorem getByCode_addCommand :
    (map.addCommand toLowercase cmd).getByCode code request =
      (map.getByCode code request).or (if defines code request cmd then some cmd else none) := by
  have hfind : ∀ l : List CommandJson, (l ++ [cmd]).find? (·.request = request) =
      (l.find? (·.request = request)).or (if cmd.request = request then some cmd else none) := by
    intro l
    rw [List.find?_append, List.find?_singleton]
    simp
  unfold getByCode addCommand defines
  dsimp only
  by_cases hcode : code = cmd.code
  · subst hcode
    rw [AList.lookup_insert, Option.bind_some, hfind]
    cases map.codeToCommand.lookup cmd.code <;> simp
  · rw [AList.lookup_insert_ne hcode]
    simp [Ne.symm hcode]

/-- Of the definitions of a code and a kind the first one is found. -/
theorem getByCode_foldl (commands : List CommandJson) :
    (commands.foldl (addCommand toLowercase) map).getByCode code request =
      (map.getByCode code request).or (commands.find? (defines code request)) := by
  induction commands generalizing map with
  | nil => rw [List.foldl_nil, List.find?_nil, Option.or_none]
  | cons cmd commands ih =>
    rw [List.foldl_cons, ih, getByCode_addCommand, List.find?_cons, Option.or_assoc]
    cases defines code request cmd <;> rfl

theorem getByName_addCommand_of_uses (h : Uses toLowercase cmd name) :
    (map.addCommand toLowercase cmd).getByName toLowercase name = some cmd := by
  unfold getByName addCommand
  dsimp only
  by_cases hshort : toLowercase name = toLowercase cmd.shortName
  · rw [hshort, AList.lookup_insert]
  · rw [AList.lookup_insert_ne hshort, h.resolve_right (Ne.symm hshort), AList.lookup_insert]

theorem getByName_addCommand_of_not_uses (h : ¬Uses toLowercase cmd name) :
    (map.addCommand toLowercase cmd).getByName toLowercase name =
      map.getByName toLowercase name := by
  unfold Uses at h
  rw [not_or] at h
  unfold getByName addCommand
  rw [AList.lookup_insert_ne (Ne.symm h.2), AList.lookup_insert_ne (Ne.symm h.1)]

/-- Of the definitions of a name the last one is found. -/
theorem getByName_foldl (before after : List CommandJson) (huses : Uses toLowercase d name)
    (hafter : ∀ e ∈ after, ¬Uses toLowercase e name) :
    ((before ++ d :: after).foldl (addCommand toLowercase) map).getByName toLowercase name =
      some d := by
  rw [List.foldl_append, List.foldl_cons]
  have hlater : ∀ map : CommandMap, (after.foldl (addCommand toLowercase) map).getByName
      toLowercase name = map.getByName toLowercase name := by
    induction after with
    | nil => exact fun _ => rfl
    | cons e after ih =>
      intro map
      rw [List.foldl_cons, ih fun e' he' => hafter e' (List.mem_cons_of_mem e he'),
        getByName_addCommand_of_not_uses (hafter e List.mem_cons_self)]
  rw [hlater, getByName_addCommand_of_uses huses]

/-- A configured definition is hidden by what is built in or configured before it. -/
theorem getByCode_new (before after : List CommandJson) (d : CommandJson) :
    (new toLowercase (before ++ d :: after)).getByCode d.code d.request =
      ((standardCommands ++ before).find? (defines d.code d.request)).or (some d) := by
  have hself : defines d.code d.request d = true := by simp [defines]
  rw [new, ← List.append_assoc, getByCode_foldl, List.find?_append, List.find?_cons_of_pos hself]
  rfl

/-- By its name only what is configured behind it hides it. -/
theorem getByName_new (before after : List CommandJson) (huses : Uses toLowercase d name)
    (hafter : ∀ e ∈ after, ¬Uses toLowercase e name) :
    (new toLowercase (before ++ d :: after)).getByName toLowercase name = some d := by
  rw [new, ← List.append_assoc]
  exact getByName_foldl _ after huses hafter

end

/-- The definition is what its code and kind, its long name and its short name stand for. -/
structure TakesEffect (toLowercase : String → String) (commands : List CommandJson)
    (d : CommandJson) : Prop where
  code : (new toLowercase commands).getByCode d.code d.request = some d
  longName : (new toLowercase commands).getByName toLowercase d.longName = some d
  shortName : (new toLowercase commands).getByName toLowercase d.shortName = some d

/-- The names of the definition are those of no other one, built-in or configured. -/
def NamesUnused (toLowercase : String → String) (d : CommandJson) (others : List CommandJson) :
    Prop :=
  ∀ e ∈ standardCommands ++ others, ¬Uses toLowercase e d.longName ∧ ¬Uses toLowercase e d.shortName

/-- **When a definition takes effect.** A configured definition, with names of its own, is
found in every way exactly if no built-in or earlier one has its code and kind. -/
theorem takesEffect_iff (toLowercase : String → String) (before after : List CommandJson)
    (d : CommandJson) (hnames : NamesUnused toLowercase d (before ++ after)) :
    TakesEffect toLowercase (before ++ d :: after) d ↔
      ∀ e ∈ standardCommands ++ before, ¬(e.code = d.code ∧ e.request = d.request) := by
  have hown : Uses toLowercase d d.longName ∧ Uses toLowercase d d.shortName :=
    ⟨.inl rfl, .inr rfl⟩
  have hafter : ∀ e ∈ after, ¬Uses toLowercase e d.longName ∧ ¬Uses toLowercase e d.shortName :=
    fun e he => hnames e (by simp [he])
  have hnone : (standardCommands ++ before).find? (defines d.code d.request) = none ↔
      ∀ e ∈ standardCommands ++ before, ¬(e.code = d.code ∧ e.request = d.request) := by
    rw [List.find?_eq_none]
    simp [defines]
  rw [← hnone]
  constructor
  · intro heffect
    have hfound := heffect.code
    rw [getByCode_new] at hfound
    cases hfirst : (standardCommands ++ before).find? (defines d.code d.request) with
    | none => rfl
    | some e =>
      -- the definition that hides `d` has other names, so it is another one
      rw [hfirst] at hfound
      obtain rfl : e = d := Option.some.inj hfound
      have hmem : e ∈ standardCommands ++ (before ++ after) := by
        rw [← List.append_assoc]
        exact List.mem_append_left after (List.mem_of_find?_eq_some hfirst)
      exact absurd hown.1 (hnames e hmem).1
  · intro hfirst
    exact
      { code := by rw [getByCode_new, hfirst]; rfl
        longName := getByName_new before after hown.1 fun e he => (hafter e he).1
        shortName := getByName_new before after hown.2 fun e he => (hafter e he).2 }

/-- Lower case, for names of ASCII letters. -/
def asciiLowercase (s : String) : String := String.ofList (s.toList.map Char.toLower)

/-- The request for user data of the Sh interface, with a code that no built-in definition has. -/
def userDataRequest : CommandJson :=
  ⟨"User-Data-Request", "UDR", 306, 16777217, true, true, false, ["Session-Id"]⟩

theorem takesEffect_iff_userDataRequest :
    NamesUnused asciiLowercase userDataRequest [] ∧
      (TakesEffect asciiLowercase [userDataRequest] userDataRequest ↔
        ∀ e ∈ standardCommands ++ [], ¬(e.code = 306 ∧ e.request = true)) := by
  have hnames : NamesUnused asciiLowercase userDataRequest [] := by
    unfold NamesUnused Uses
    decide +kernel
  exact ⟨hnames, takesEffect_iff asciiLowercase [] [] userDataRequest hnames⟩

/-- A Capabilities-Exchange-Request of one's own, under names of its own. -/
def ownExchange : CommandJson := ⟨"Capabilities-Exchange", "CE", 257, 0, true, false, false, []⟩

/-- Its names stand for it, but its code for the built-in definition. -/
theorem not_takesEffect_ownExchange :
    NamesUnused asciiLowercase ownExchange [] ∧
      (new asciiLowercase [ownExchange]).getByName asciiLowercase "Capabilities-Exchange" =
        some ownExchange ∧
      (new asciiLowercase [ownExchange]).getByCode 257 true ≠ some ownExchange ∧
      ¬∀ before after d, NamesUnused asciiLowercase d (before ++ after) →
        (∀ e ∈ after, ¬(e.code = d.code ∧ e.request = d.request)) →
          TakesEffect asciiLowercase (before ++ d :: after) d := by
  have hnames : NamesUnused asciiLowercase ownExchange [] := by
    unfold NamesUnused Uses
    decide +kernel
  have hcode : (new asciiLowercase [ownExchange]).getByCode 257 true ≠ some ownExchange := by
    rw [new, getByCode_foldl]
    decide
  refine ⟨hnames, getByName_new [] [] (.inl rfl) (by simp), hcode, fun hall => ?_⟩
  exact hcode (hall [] [] ownExchange hnames (by simp)).code

end CommandMap

end RestDiameterBridge
