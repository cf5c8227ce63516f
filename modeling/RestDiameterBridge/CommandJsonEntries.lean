import RestDiameterBridge.CommandJsonRoundTrip

/-!
# RestDiameterBridge.CommandJsonEntries

What is read under a name in the JSON form of a command (`Command::to_json` in
`src/command.rs`).

Each AVP is converted to a name and a value, which is never an array. Outside the header a
name has the values that were converted to it, in the order of the AVPs
(`toJson_entries`): the loop tells by the shape of what it finds how often a name came.
-/

namespace RestDiameterBridge

/-- The names of the members that the header of a command writes. -/
def headerKeys : List String :=
  ["name", "code", "application_id", "hop_by_hop_id", "end_to_end_id", "flags"]

/-- No definition has the name of a header field. -/
def AvpMap.SparesHeader (map : AvpMap) : Prop :=
  ∀ code named, map.getByCode code = some named → named.name ∉ headerKeys

theorem AvpMap.sparesHeader_new {avps : List AvpJson}
    (h : ∀ avp ∈ standardAvpJson ++ avps, avp.name ∉ headerKeys) :
    (AvpMap.new avps).SparesHeader := by
  intro code named hnamed
  rw [getByCode_new] at hnamed
  obtain ⟨before, after, happend, -, -⟩ := Latest.latest_eq_some_iff.mp hnamed
  exact h named (happend ▸ List.mem_append_right before List.mem_cons_self)

section
variable {fmt : Formats} {commandMap : CommandMap} {map : AvpMap} {c : Command} {a : Avp}
  {p : String × Json}

/-- Names made of a code start with a capital letter, header fields do not. -/
theorem append_not_mem_headerKeys {s rest : String}
    (h : s.toList.head? = some 'A' ∨ s.toList.head? = some 'U') : s ++ rest ∉ headerKeys := by
  intro hmem
  have hsmall : ∀ k ∈ headerKeys, k.toList.head? ≠ some 'A' ∧ k.toList.head? ≠ some 'U' := by
    decide
  have hkey := hsmall _ hmem
  rcases h with h | h <;> simp [String.toList_append, List.head?_append, h] at hkey

theorem jsonName_not_mem_headerKeys (hmap : map.SparesHeader) (code : UInt32) :
    map.jsonName code ∉ headerKeys := by
  unfold AvpMap.jsonName
  split
  · rename_i named hnamed
    exact hmap code named hnamed
  · exact append_not_mem_headerKeys (.inl rfl)

/-- No AVP is shown under the name of a header field. -/
theorem avpJson_not_mem_headerKeys (hmap : map.SparesHeader)
    (h : Command.avpJson fmt map a = some p) : p.1 ∉ headerKeys := by
  obtain ⟨r, hr, rfl⟩ := Option.map_eq_some_iff.mp h
  cases r with
  | some p =>
    rw [Option.getD_some, (avpToNameValue_some hr).1]
    exact jsonName_not_mem_headerKeys hmap a.code
  | none => exact append_not_mem_headerKeys (.inr rfl)

theorem headerJson_names (commandMap : CommandMap) (c : Command) :
    ∀ name ∈ (c.headerJson commandMap).map Prod.fst, name ∈ headerKeys := by
  intro name hname
  obtain ⟨r, hr, hperm⟩ := headerJson_perm commandMap c
  rw [(hperm.map Prod.fst).mem_iff, List.map_append, List.mem_append] at hname
  rcases hname with hname | hname
  · rcases hr with rfl | hr
    · cases hname
    · obtain ⟨longName, rfl⟩ := hr
      rw [List.mem_singleton.mp hname]
      exact List.mem_cons_self
  · exact List.mem_cons_of_mem _ hname

/-- The name is that of the definition. -/
theorem get_headerJson_name : Json.get (c.headerJson commandMap) "name" =
    (commandMap.getByCode c.code c.isRequest).map fun d => .string d.longName := by
  have hfields : "name" ∉ (headerFields c).map Prod.fst := by simp [headerFields]
  have hnodup : (([] : List (String × Json)).map Prod.fst).Nodup := List.nodup_nil
  unfold Command.headerJson
  cases commandMap.getByCode c.code c.isRequest with
  | none => exact Json.get_insertAll_of_not_mem hnodup hfields
  | some d =>
    exact (Json.get_insertAll_of_not_mem (Json.nodup_insert hnodup) hfields).trans
      (Json.get_insert_self hnodup)

end

/-- **What the JSON form of a command shows under a name.** Outside the header a name that
no AVP converts to is absent, that of one AVP has its value, and that of several the array
of their values, in the order of the AVPs. The names of the header have the header's
values. -/
theorem toJson_entries (fmt : Formats) (commandMap : CommandMap) (map : AvpMap) (c : Command)
    (json : Json) (hmap : map.SparesHeader) (h : c.toJson fmt commandMap map = some json) :
    ∃ members values, json = .object members ∧
      List.Forall₂ (fun a p => Command.avpJson fmt map a = some p) c.avps values ∧
      (∀ name, name ∉ headerKeys →
        Json.get members name = Json.gather ((values.filter (·.1 = name)).map Prod.snd)) ∧
      (∀ field ∈ headerFields c, Json.get members field.1 = some field.2) ∧
      Json.get members "name" =
        (commandMap.getByCode c.code c.isRequest).map fun d => .string d.longName := by
  obtain ⟨values, hvalues, rfl⟩ := Option.map_eq_some_iff.mp h
  have hconv := OrPanic.mapM_eq_some_iff.mp hvalues
  have hnodup := nodup_headerJson commandMap c
  have hkept : ∀ key ∈ headerKeys,
      Json.get (Json.collectAll (c.headerJson commandMap) values) key =
        Json.get (c.headerJson commandMap) key := by
    intro key hkey
    refine Json.get_collectAll_of_not_mem hnodup fun hmem => ?_
    obtain ⟨p, hp, rfl⟩ := List.mem_map.mp hmem
    have hnot : ∀ p ∈ values, p.1 ∉ headerKeys :=
      OrPanic.forall_mem_of_forall₂ hconv fun _ _ hp => avpJson_not_mem_headerKeys hmap hp
    exact hnot p hp hkey
  refine ⟨_, values, rfl, hconv, fun name hname => ?_, fun field hfield => ?_, ?_⟩
  · exact Json.get_collectAll hnodup (fun hmem => hname (headerJson_names commandMap c name hmem))
      (OrPanic.forall_mem_of_forall₂ hconv fun _ _ hp => isArray_avpJson hp)
  · have hkey : field.1 ∈ headerKeys :=
      List.mem_cons_of_mem _ (List.mem_map_of_mem (f := Prod.fst) hfield)
    exact (hkept _ hkey).trans (get_headerJson hfield)
  · exact (hkept _ List.mem_cons_self).trans get_headerJson_name

/-- Three AVPs of two codes that no dictionary entry has. -/
def unknownAvps : Command :=
  { code := 271, flags := 0xC0, applicationId := 3, hopByHopId := 7, endToEndId := 8
    avps := [.new 5000 0x40 none [65], .new 5001 0x40 none [66], .new 5000 0x40 none [67]] }

theorem toJson_entries_unknownAvps :
    ∃ members, unknownAvps.toJson (standardTexts true).toFormats
        (.new (standardTexts true).toLowercase []) (.new []) = some (.object members) ∧
      Json.get members "AVP-5000" = some (.array [.string "QQ==", .string "Qw=="]) ∧
      Json.get members "AVP-5001" = some (.string "Qg==") ∧
      Json.get members "User-Name" = none ∧
      Json.get members "hop_by_hop_id" = some (.ofInt 7) := by
  have hmap : (AvpMap.new []).SparesHeader := AvpMap.sparesHeader_new (by decide +kernel)
  have hshown : ∀ code byte, (AvpMap.new []).getByCode code = none →
      Command.avpJson (standardTexts true).toFormats (.new []) (.new code 0x40 none [byte]) =
        some (s!"AVP-{code}", .string (.ofList (Base64.encode [byte]))) := by
    intro code byte hcode
    rw [Command.avpJson, avpToNameValue_of_unknown hcode]
    rfl
  have hvalues : unknownAvps.avps.mapM (Command.avpJson (standardTexts true).toFormats (.new [])) =
      some [("AVP-5000", .string "QQ=="), ("AVP-5001", .string "Qg=="),
        ("AVP-5000", .string "Qw==")] := by
    rw [OrPanic.mapM_eq_some_iff]
    exact .cons (hshown 5000 65 rfl) (.cons (hshown 5001 66 rfl) (.cons (hshown 5000 67 rfl) .nil))
  obtain ⟨members, values, heq, hconv, hentries, hfields, -⟩ :=
    toJson_entries (standardTexts true).toFormats (.new (standardTexts true).toLowercase []) (.new [])
      unknownAvps _ hmap (congrArg _ hvalues)
  obtain rfl := Option.some.inj (hvalues.symm.trans (OrPanic.mapM_eq_some_iff.mpr hconv))
  refine ⟨members, (congrArg _ hvalues).trans (congrArg some heq), ?_, ?_, ?_, ?_⟩
  · exact hentries "AVP-5000" (by decide)
  · exact hentries "AVP-5001" (by decide)
  · exact hentries "User-Name" (by decide)
  · exact hfields ("hop_by_hop_id", .ofInt 7) (by simp [headerFields, unknownAvps])

end RestDiameterBridge
