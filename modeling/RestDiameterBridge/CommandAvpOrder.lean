import Mathlib.Order.WithBot
import RestDiameterBridge.CommandJsonRoundTrip
import RestDiameterBridge.Lib.StableSort

/-!
# RestDiameterBridge.CommandAvpOrder

Which AVPs a command made from JSON has, and in which order (`Command::from_json_value`,
`CommandJson::sort_avps` in `src/command.rs`).

Reading the members gives one AVP for each entry that can be converted, in the order of the
entries (`readMembers_avps`). The sort then goes from the code of an AVP to its name and
from the name to its position in the definition of the command; `arranged_fromJsonValue`
says what comes out.
-/

namespace RestDiameterBridge

open Bytes StableSort

/-- The entries of a body that stand for AVPs: those of the header do not, and an array
counts with each of its elements. -/
def bodyEntries (obj : List (String × Json)) : List (String × Json) :=
  Json.slots (obj.filter (·.1 ∉ headerNames))

/-- The AVP an entry is converted to, if it fits the dictionary. -/
def convertEntry (fmt : TextFormats) (map : AvpMap) (e : String × Json) : Option Avp :=
  (nameValueToAvp fmt map e.1 e.2).getD none

/-- The AVPs of a body, in the order of its entries. -/
def bodyAvps (fmt : TextFormats) (map : AvpMap) (obj : List (String × Json)) : List Avp :=
  (bodyEntries obj).filterMap (convertEntry fmt map)

/-- The name of an AVP: that of the definition of its code. -/
def Avp.name (map : AvpMap) (a : Avp) : Option String := (map.getByCode a.code).map AvpJson.name

/-- The position of the AVP's name in the definition of a command. What it does not list is
behind everything it lists. -/
def CommandJson.position (d : CommandJson) (map : AvpMap) (a : Avp) : WithTop Nat :=
  match (a.name map).bind d.avps.idxOf? with
  | some i => i
  | none => ⊤

/-- A definition found by a name has that name, and is found by its code. -/
def AvpMap.NamesCodes (map : AvpMap) : Prop :=
  ∀ name named, map.getByName name = some named →
    named.name = name ∧ map.getByCode named.code = some named

section
variable {fmt : TextFormats} {commandMap : CommandMap} {map : AvpMap} {d : CommandJson}
  {obj : List (String × Json)}

/-! ### Reading -/

theorem memberAvps_eq (m : String × Json) : memberAvps fmt map m =
    if m.1 ∈ headerNames then [] else (Json.memberSlots m).filterMap (convertEntry fmt map) := by
  have hitems : ∀ items : List Json, items.flatMap (itemAvps fmt map m.1) =
      (items.map (m.1, ·)).filterMap (convertEntry fmt map) := by
    intro items
    rw [List.filterMap_map, List.filterMap_eq_flatMap_toList]
    rfl
  rw [memberAvps, hitems, ← Json.memberSlots_eq]

theorem flatMap_memberAvps : obj.flatMap (memberAvps fmt map) = bodyAvps fmt map obj := by
  rw [bodyAvps, bodyEntries, Json.slots]
  induction obj with
  | nil => rfl
  | cons m obj ih =>
    rw [List.flatMap_cons, ih, memberAvps_eq]
    by_cases hm : m.1 ∈ headerNames
    · simp [hm]
    · simp [hm, List.filterMap_append]

theorem readMembers_avps {start read : Command}
    (h : obj.foldlM (Command.readMember fmt map) start = some read) :
    read.avps = start.avps ++ bodyAvps fmt map obj := by
  rw [← flatMap_memberAvps]
  exact OrPanic.foldlM_flatMap (f := Command.readMember fmt map) (g := Command.avps)
    (fun _ _ _ => readMember_avps) h

/-- The AVP of an entry has the code of its name. -/
theorem nameCode_of_convertEntry {e : String × Json} {a : Avp}
    (h : convertEntry fmt map e = some a) : map.nameCode e.1 = some a.code := by
  unfold convertEntry at h
  cases hresult : nameValueToAvp fmt map e.1 e.2 with
  | none => simp [hresult] at h
  | some r =>
    obtain rfl : r = some a := by simpa [hresult] using h
    exact nameCode_of_made (made_of_nameValueToAvp hresult)

/-- An AVP converted under a name of the dictionary has that name. -/
theorem name_of_convertEntry (hmap : map.NamesCodes) {e : String × Json} {named : AvpJson}
    {a : Avp} (hnamed : map.getByName e.1 = some named)
    (ha : convertEntry fmt map e = some a) : a.name map = some e.1 := by
  obtain ⟨hname, hfound⟩ := hmap e.1 named hnamed
  have hcode : named.code = a.code := by
    simpa [AvpMap.nameCode, hnamed] using nameCode_of_convertEntry ha
  rw [Avp.name, ← hcode, hfound, Option.map_some, hname]

/-! ### Sorting -/

theorem place_eq (d : CommandJson) (map : AvpMap) (a : Avp) :
    d.place map a = ((a.name map).bind d.avps.idxOf?).getD (2 ^ 64 - 1) := by
  unfold CommandJson.place Avp.name
  cases map.getByCode a.code with
  | none =>
    have hnone : d.avps.findIdx? (fun _ => false) = none := List.findIdx?_eq_none_iff.mpr (by simp)
    rw [hnone]
    rfl
  | some info => simp [List.idxOf?, BEq.comm]

/-- Places are in the order of the positions: no list of names reaches `usize::MAX`. -/
theorem place_le_iff (hlength : d.avps.length < 2 ^ 64) {a b : Avp} :
    d.place map a ≤ d.place map b ↔ d.position map a ≤ d.position map b := by
  have hlt : ∀ (a : Avp) (i : Nat), (a.name map).bind d.avps.idxOf? = some i → i < 2 ^ 64 - 1 := by
    intro a i hi
    obtain ⟨name, -, hidx⟩ := Option.bind_eq_some_iff.mp hi
    have := (List.findIdx?_eq_some_iff_getElem.mp hidx).1
    omega
  rw [place_eq, place_eq, CommandJson.position, CommandJson.position]
  cases ha : (a.name map).bind d.avps.idxOf? with
  | none =>
    cases hb : (b.name map).bind d.avps.idxOf? with
    | none => simp
    | some j => simpa using hlt b j hb
  | some i =>
    cases hb : (b.name map).bind d.avps.idxOf? with
    | none => simpa using (hlt a i ha).le
    | some j => simp

theorem sortAvps_eq (hlength : d.avps.length < 2 ^ 64) (avps : List Avp) :
    d.sortAvps map avps = avps.mergeSort fun a b => d.position map a ≤ d.position map b := by
  unfold CommandJson.sortAvps
  simp only [place_le_iff hlength]

end

/-- **The AVPs of a command made from JSON.** Unless there is a panic, a body that names a
defined command makes a command with the AVPs of the entries that can be converted, by the
position of their names in the definition, those of one position in the order they were
read in. An AVP converted under a name of the dictionary is sorted under that name. -/
theorem arranged_fromJsonValue (fmt : TextFormats) (commandMap : CommandMap) (map : AvpMap)
    (obj : List (String × Json)) (d : CommandJson) (r : Except String Command)
    (hmap : map.NamesCodes) (hd : Command.getCommandDefine fmt obj commandMap = some d)
    (hlength : d.avps.length < 2 ^ 64)
    (h : Command.fromJsonValue fmt commandMap map (.object obj) = some r) :
    ∃ c, r = .ok c ∧ SortedBy (d.position map) (bodyAvps fmt map obj) c.avps ∧
      ∀ e ∈ bodyEntries obj, ∀ named a, map.getByName e.1 = some named →
        convertEntry fmt map e = some a → a.name map = some e.1 := by
  simp only [Command.fromJsonValue, hd] at h
  obtain ⟨read, hread, rfl⟩ := Option.map_eq_some_iff.mp h
  refine ⟨_, rfl, ?_, fun e _ named a hnamed ha => name_of_convertEntry hmap hnamed ha⟩
  have havps := readMembers_avps hread
  rw [List.nil_append] at havps
  dsimp only
  rw [sortAvps_eq hlength, havps]
  exact sortedBy_mergeSort (d.position map) (bodyAvps fmt map obj)

/-- An accounting request whose entries stand in the order of their names. -/
def accountingBody : List (String × Json) :=
  [("Bogus", .string "x"), ("Route-Record", .array [.string "a", .null, .string "b"]),
    ("Session-Id", .string "s"), ("code", .ofInt 271)]

theorem arranged_fromJsonValue_accountingBody :
    (bodyAvps (standardTexts true) (.new []) accountingBody).map Avp.code = [282, 282, 263] ∧
      ∃ c, Command.fromJsonValue (standardTexts true) (.new (standardTexts true).toLowercase [])
          (.new []) (.object accountingBody) = some (.ok c) ∧
        SortedBy (standardCommands[2].position (.new []))
          (bodyAvps (standardTexts true) (.new []) accountingBody) c.avps := by
  refine ⟨by decide +kernel, ?_⟩
  have hresult : ∃ r, Command.fromJsonValue (standardTexts true)
      (.new (standardTexts true).toLowercase []) (.new []) (.object accountingBody) = some r :=
    ⟨_, rfl⟩
  obtain ⟨r, hr⟩ := hresult
  obtain ⟨c, rfl, hsorted, -⟩ := arranged_fromJsonValue (standardTexts true)
    (.new (standardTexts true).toLowercase []) (.new []) accountingBody standardCommands[2] r
    bijective_standard.byName rfl (by decide) hr
  exact ⟨c, hr, hsorted⟩

end RestDiameterBridge
