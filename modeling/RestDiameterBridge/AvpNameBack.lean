import RestDiameterBridge.AvpValueFromJson

/-!
# RestDiameterBridge.AvpNameBack

The name under which an AVP made from JSON is shown by its receiver.

The dictionary is looked up by code alone, where of several definitions of one code, for
different vendors, the last one has replaced the others. So an AVP goes by the name it was
made under exactly if this names the last definition of its code, and if the receiver can
show the data at all (`shownUnder_iff`).
-/

namespace RestDiameterBridge

open Bytes Avp Latest

/-! ### What is received -/

/-- The AVP a receiver reads: as much of the payload as the wire form declares, and a vendor
id only behind the vendor bit. -/
def Avp.received (a : Avp) : Avp where
  code := a.code
  flags := a.flags
  vendorId := if a.flags &&& 0x80 != 0 then a.vendorId else none
  data := some (a.payload.take (a.declaredLength - (headerLength a.flags).toNat))
  subAvps := []

section
variable {fmt : TextFormats} {map : AvpMap} {name : String} {value : Json} {a : Avp}

theorem Avp.Counted.withoutVendor (h : a.Counted) (hbit : (a.flags &&& 0x80 != 0) = false) :
    Counted { a with vendorId := none } := by
  obtain ⟨code, flags, vendorId, data, subAvps⟩ := a
  obtain ⟨hheader, htotal⟩ := h
  replace hbit : (flags &&& 0x80 != 0) = false := hbit
  refine ⟨?_, ?_⟩
  · simpa [length_encodeHeader, hbit] using hheader
  · cases data <;> exact htotal

/-- Of an AVP with a vendor id behind its vendor bit, a receiver reads what was written. -/
theorem decode_encode_received (hcounted : a.Counted)
    (hvendor : (a.flags &&& 0x80 != 0) = true → a.vendorId.isSome = true) :
    decode a.encode =
      if a.declaredLength < (headerLength a.flags).toNat then
        .error "Failed to decode AVP header"
      else .ok a.received := by
  cases hbit : (a.flags &&& 0x80 != 0) with
  | true =>
    have hset : (a.flags &&& 0x80 != 0) = a.vendorId.isSome := by rw [hbit, hvendor hbit]
    have hdecode := decode_encode_declared hcounted hset []
    rw [List.append_nil] at hdecode
    rw [hdecode, received, if_pos hbit]
  | false =>
    -- without the bit the vendor id is not written, so it may as well be absent
    have hdecode := decode_encode_declared (hcounted.withoutVendor hbit) hbit []
    rw [List.append_nil, encode_of_not_vendorSpecific hbit none] at hdecode
    have hreceived : a.received = { a with
        vendorId := none
        data := some (a.payload.take (a.declaredLength - (headerLength a.flags).toNat))
        subAvps := [] } := by
      rw [received, if_neg (by simp [hbit])]
    rw [hdecode, hreceived]
    rfl

/-- The vendor bit is only set with a vendor id. -/
theorem vendor_of_made (h : Made fmt map name value a) :
    (a.flags &&& 0x80 != 0) = true → a.vendorId.isSome = true := by
  cases h with
  | scalar => exact fun hbit => (new_vendorBit _ _ _ _).symm.trans hbit
  | generic => exact fun hbit => (new_vendorBit _ _ _ _).symm.trans hbit
  | @group _ named subAvps =>
    intro hbit
    rw [fromGrouped_flags] at hbit
    cases hbit

theorem code_of_made {named : AvpJson} (hnamed : map.getByName name = some named)
    (h : Made fmt map name value a) : a.code = named.code := by
  have hcode := nameCode_of_made h
  rw [AvpMap.nameCode, hnamed] at hcode
  exact (Option.some.inj hcode).symm

end

/-! ### What is shown -/

/-- Data of the type has a JSON value, which is made without a panic. -/
def AvpType.Reports (fmt : Formats) (map : AvpMap) (avpType : AvpType) (data : List UInt8) :
    Prop :=
  match avpType with
  | address | utf8String | diameterIdentity | diameterUri | ipFilterRule => avpType.Holds data
  | time => data.length = 4 ∧ (fmt.overflowChecks = true → unixEpoch ≤ fromBeBytes data)
  | grouped => 8 ≤ data.length ∧ ∃ members,
      Command.decodeAvps data data.length 0 [] = .ok members ∧ ∀ m ∈ members, m.Shows fmt map
  | _ => True

section
variable {fmt : Formats} {map : AvpMap} {a : Avp} {data : List UInt8} {named : AvpJson}

theorem exists_asAddress_iff (hdata : a.data = some data) :
    (∃ s, a.asAddress fmt = some s) ↔ AvpType.address.Holds data := by
  rw [asAddress, hdata, AvpType.Holds]
  dsimp only
  by_cases hv4 : beValue (data.take 2) = 1 ∧ data.length = 6
  · rw [if_neg (by omega), if_pos hv4]
    exact iff_of_true ⟨_, rfl⟩ (.inl hv4)
  by_cases hv6 : beValue (data.take 2) = 2 ∧ data.length = 18
  · rw [if_neg (by omega), if_neg hv4, if_pos hv6]
    exact iff_of_true ⟨_, rfl⟩ (.inr hv6)
  · rw [if_neg hv4, if_neg hv6, ite_self]
    exact iff_of_false (by simp) (by simp [hv4, hv6])

theorem exists_asTime_iff (hdata : a.data = some data) :
    (∃ t, a.asTime fmt = some (some t)) ↔ AvpType.time.Reports fmt map data := by
  rw [asTime, AvpType.Reports]
  by_cases hlength : data.length = 4
  · rw [asUnsigned32_eq hdata hlength]
    by_cases hearly : fmt.overflowChecks = true ∧ fromBeBytes data < 2208988800
    · simp only [hearly, decide_true, Bool.and_self, if_true]
      refine iff_of_false (by simp) fun h => ?_
      exact UInt32.not_le.mpr hearly.2 (h.2 trivial)
    · have hchecked : (fmt.overflowChecks && fromBeBytes data < 2208988800) = false := by
        simpa using hearly
      simp only [hchecked]
      refine iff_of_true ⟨_, rfl⟩ ⟨hlength, fun hchecks => ?_⟩
      exact UInt32.not_lt.mp fun hlt => hearly ⟨hchecks, hlt⟩
  · have hnone : a.asUnsigned32 = none := by
      rw [asUnsigned32, hdata]
      exact if_neg hlength
    rw [hnone]
    exact iff_of_false (by simp) fun h => hlength h.1

/-- Data of a scalar type is shown exactly if it is of its form. -/
theorem exists_scalarToValue_iff {avpType : AvpType} (htype : avpType ≠ .grouped)
    (hdata : a.data = some data) :
    (∃ v, scalarToValue fmt avpType a = some (some v)) ↔ avpType.Reports fmt map data := by
  cases avpType with
  | octetString => simp [scalarToValue, hdata, AvpType.Reports]
  | address =>
    have haddress : (∃ s, a.asAddress fmt = some s) ↔ _ := exists_asAddress_iff hdata
    rw [AvpType.Reports, ← haddress]
    simp [scalarToValue]
  | time =>
    rw [← exists_asTime_iff hdata]
    simp [scalarToValue]
  | utf8String | diameterIdentity | diameterUri | ipFilterRule =>
    rw [AvpType.Reports, AvpType.Holds, Option.isSome_iff_exists]
    simp [scalarToValue, hdata]
  | grouped => exact absurd rfl htype
  | _ => simp [scalarToValue, AvpType.Reports]

theorem exists_avpToNameValue_iff (hdata : a.data = some data)
    (hnamed : map.getByCode a.code = some named) :
    (∃ p, avpToNameValue fmt map a = some (some p)) ↔ named.avpType.Reports fmt map data := by
  by_cases htype : named.avpType = .grouped
  · have hmembers : a.asGrouped =
        if 8 ≤ data.length then (Command.decodeAvps data data.length 0 []).toOption else none := by
      rw [asGrouped, hdata]
    rw [htype, AvpType.Reports]
    cases hgroup : a.asGrouped with
    | none =>
      rw [avpToNameValue_of_not_grouped hnamed htype hgroup]
      refine iff_of_false (by simp) fun h => ?_
      obtain ⟨hlength, members, hdecode, -⟩ := h
      rw [hmembers, if_pos hlength, hdecode] at hgroup
      cases hgroup
    | some members =>
      have hshown : (∃ p, avpToNameValue fmt map a = some (some p)) ↔
          ∀ m ∈ members, m.Shows fmt map := by
        rw [avpToNameValue_of_grouped hnamed htype hgroup]
        simp only [Option.map_eq_some_iff, ← avpToNameValue_isSome_iff]
        rw [← insertMembers_isSome_iff (Avp.weight_lt_of_asGrouped hgroup) [],
          Option.isSome_iff_exists]
        simp
      rw [hshown]
      rw [hmembers] at hgroup
      split at hgroup
      · rename_i hlength
        cases hdecode : Command.decodeAvps data data.length 0 [] with
        | error e =>
          rw [hdecode] at hgroup
          cases hgroup
        | ok read =>
          rw [hdecode] at hgroup
          obtain rfl := Option.some.inj hgroup
          simp [hlength]
      · cases hgroup
  · rw [← exists_scalarToValue_iff htype hdata, avpToNameValue_of_scalar hnamed htype]
    simp

end

/-- The receiver of the AVP shows it under the name. -/
def ShownUnder (fmt : Formats) (map : AvpMap) (name : String) (a : Avp) : Prop :=
  ∃ d v, decode a.encode = .ok d ∧ avpToNameValue fmt map d = some (some (name, v))

/-- What is received has data that the type has a JSON value for. -/
def Avp.Reports (fmt : Formats) (map : AvpMap) (avpType : AvpType) (a : Avp) : Prop :=
  (headerLength a.flags).toNat ≤ a.declaredLength ∧
    avpType.Reports fmt map (a.payload.take (a.declaredLength - (headerLength a.flags).toNat))

/-- An AVP is shown under the name of the definition its code leads to. -/
theorem shownUnder_iff_name {fmt : TextFormats} {map : AvpMap} {name : String} {value : Json}
    {a : Avp} {named last : AvpJson} (hnamed : map.getByName name = some named)
    (hlast : map.getByCode named.code = some last)
    (h : nameValueToAvp fmt map name value = some (some a)) :
    ShownUnder fmt.toFormats map name a ↔
      last.name = name ∧ a.Reports fmt.toFormats map last.avpType := by
  have hmade := made_of_nameValueToAvp h
  have hcode : map.getByCode a.received.code = some last :=
    (congrArg map.getByCode (code_of_made hnamed hmade)).trans hlast
  have hdecode := decode_encode_received (nameValueToAvp_sized h).1 (vendor_of_made hmade)
  have hreports : (∃ p, avpToNameValue fmt.toFormats map a.received = some (some p)) ↔ _ :=
    exists_avpToNameValue_iff rfl hcode
  have hname : ∀ {n v}, avpToNameValue fmt.toFormats map a.received = some (some (n, v)) →
      n = last.name := by
    intro n v hshown
    rw [(avpToNameValue_some hshown).1, AvpMap.jsonName, hcode]
  constructor
  · intro hshown
    obtain ⟨d, v, hd, hshown⟩ := hshown
    rw [hdecode] at hd
    split at hd
    · cases hd
    · rename_i hle
      obtain rfl := Except.ok.inj hd
      exact ⟨(hname hshown).symm, Nat.not_lt.mp hle, hreports.mp ⟨_, hshown⟩⟩
  · intro hboth
    obtain ⟨hlastName, hle, hdata⟩ := hboth
    obtain ⟨⟨n, v⟩, hshown⟩ := hreports.mpr hdata
    obtain rfl : n = name := (hname hshown).trans hlastName
    exact ⟨a.received, v, hdecode.trans (if_neg (Nat.not_lt.mpr hle)), hshown⟩

theorem reports_toBeBytes_time {fmt : Formats} {map : AvpMap} {x : UInt32}
    (hfits : fmt.overflowChecks = true → 2208988800 + x.toNat < 2 ^ 32) :
    AvpType.time.Reports fmt map (toBeBytes (2208988800 + x)) := by
  refine ⟨length_toBeBytes _, fun hchecks => ?_⟩
  rw [fromBeBytes_toBeBytes, UInt32.le_iff_toNat_le, toNat_since1900 (hfits hchecks)]
  exact Nat.le_add_right _ _

/-- The data made from a text is an address if the text is that of one. -/
theorem holds_address_iff {fmt : TextFormats} {s : String} {data : List UInt8}
    (hdata : scalarBytes fmt .address (.string s) = some data) :
    AvpType.address.Holds data ↔ (fmt.addressText s).isSome = true := by
  constructor
  · intro hholds
    rw [scalarBytes, fromAddress] at hdata
    rw [TextFormats.addressText]
    cases hv4 : fmt.parseIpv4 s with
    | some ip => rfl
    | none =>
      cases hv6 : fmt.parseIpv6 s with
      | some ip => rfl
      | none =>
        simp only [hv4, hv6] at hdata
        obtain rfl := Option.some.inj hdata
        rcases hholds with ⟨-, hlength⟩ | ⟨-, hlength⟩ <;> cases hlength
  · intro hsome
    have hexact : (new 0 0 none data).HoldsExactly fmt .address (.string s) :=
      (holdsExactly_address_iff hdata).mpr hsome
    obtain ⟨text, -, hread⟩ := hexact
    exact (exists_asAddress_iff rfl).mp ⟨text, hread⟩

/-- Of the data made from scalars only that of a text that is no address is not shown. -/
theorem reports_iff_of_scalarBytes {fmt : TextFormats} {map : AvpMap} {avpType : AvpType}
    {value : Json} {data : List UInt8} (htype : avpType ≠ .grouped)
    (htime : ¬TimeOverflows fmt.toFormats avpType value)
    (hdata : scalarBytes fmt avpType value = some data) :
    avpType.Reports fmt.toFormats map data ↔
      ∀ s, avpType = .address → value = .string s → (fmt.addressText s).isSome = true := by
  cases avpType with
  | address =>
    cases value with
    | string s =>
      rw [AvpType.Reports, holds_address_iff hdata]
      exact ⟨fun hsome t _ ht => Json.string.inj ht ▸ hsome, fun hall => hall s rfl rfl⟩
    | _ => cases hdata
  | time =>
    refine iff_of_true ?_ fun _ hother => by cases hother
    cases value with
    | number num =>
      obtain ⟨u, hu, rfl⟩ := Option.map_eq_some_iff.mp hdata
      exact reports_toBeBytes_time fun hchecks =>
        Nat.not_le.mp fun hlarge => htime ⟨hchecks, rfl, u, hu, hlarge⟩
    | _ => cases hdata
  | utf8String | diameterIdentity | diameterUri | ipFilterRule =>
    refine iff_of_true ?_ fun _ hother => by cases hother
    cases value with
    | string s =>
      obtain rfl := Option.some.inj hdata
      exact Option.isSome_iff_exists.mpr ⟨s, Avp.fromUTF8_eq_some_iff.mpr rfl⟩
    | _ => cases hdata
  | grouped => exact absurd rfl htype
  | _ => exact iff_of_true trivial fun _ hother => by cases hother

/-- Of the scalars that an AVP has room for, only a text that is no address is not shown. -/
theorem reports_iff_of_scalar {fmt : TextFormats} {map : AvpMap} {name : String} {value : Json}
    {a : Avp} {named : AvpJson} (hnamed : map.getByName name = some named)
    (htype : named.avpType ≠ .grouped) (h : nameValueToAvp fmt map name value = some (some a))
    (hsize : jsonSize fmt map name value < 2 ^ 24) :
    a.Reports fmt.toFormats map named.avpType ↔
      ∀ s, named.avpType = .address → value = .string s → (fmt.addressText s).isSome = true := by
  have hsized := (nameValueToAvp_sized h).2
  have hdeclared : a.declaredLength = (headerLength a.flags).toNat + a.payload.length := by
    rw [declaredLength, hsized]
    exact Nat.mod_eq_of_lt hsize
  rw [Avp.Reports, hdeclared, Nat.add_sub_cancel_left, List.take_length,
    and_iff_right (Nat.le_add_right _ _)]
  cases made_of_nameValueToAvp h with
  | scalar hnamed' _ htime hdata =>
    obtain rfl := Option.some.inj (hnamed.symm.trans hnamed')
    exact reports_iff_of_scalarBytes htype htime hdata
  | group hnamed' htype' =>
    exact absurd (Option.some.inj (hnamed'.symm.trans hnamed) ▸ htype') htype
  | generic hnone => cases hnone.symm.trans hnamed

/-- The definition is the last one of its code. -/
def AvpJson.LastOfCode (avps : List AvpJson) (named : AvpJson) : Prop :=
  ∃ before after, standardAvpJson ++ avps = before ++ named :: after ∧
    ∀ d ∈ after, d.code ≠ named.code

/-- **Which names come back.** In a dictionary of definitions with distinct names, an AVP
made under a name is shown under it by its receiver exactly if the name is that of the last
definition of its code, and what is received has a JSON value of its type. -/
theorem shownUnder_iff {fmt : TextFormats} {avps : List AvpJson}
    (hnames : ((standardAvpJson ++ avps).map AvpJson.name).Nodup) {name : String}
    {named : AvpJson} (hnamed : (AvpMap.new avps).getByName name = some named) {value : Json}
    {a : Avp} (h : nameValueToAvp fmt (.new avps) name value = some (some a)) :
    ShownUnder fmt.toFormats (.new avps) name a ↔
      named.LastOfCode avps ∧ a.Reports fmt.toFormats (.new avps) named.avpType := by
  have hlisted := hnamed
  rw [AvpMap.getByName_new, latest_of_nodup hnames] at hlisted
  obtain ⟨hmem, hname⟩ := hlisted
  have hlatest : named.LastOfCode avps ↔
      latest AvpJson.code named.code (standardAvpJson ++ avps) = some named := by
    rw [latest_eq_some_iff]
    simp [AvpJson.LastOfCode]
  rw [hlatest]
  cases hlast : latest AvpJson.code named.code (standardAvpJson ++ avps) with
  | none => exact absurd rfl (latest_eq_none_iff.mp hlast named hmem)
  | some last =>
    rw [shownUnder_iff_name hnamed ((AvpMap.getByCode_new avps named.code).trans hlast) h]
    -- names are distinct, so the last definition of the code has the name if it is this one
    have hsame : last.name = name ↔ last = named := by
      constructor
      · intro heq
        obtain ⟨before, after, hsplit, -⟩ := latest_eq_some_iff.mp hlast
        have hlastMem : last ∈ standardAvpJson ++ avps := by
          rw [hsplit]
          exact List.mem_append_right _ List.mem_cons_self
        have hbyName := (latest_of_nodup hnames).mpr ⟨hlastMem, heq⟩
        exact Option.some.inj (hbyName.symm.trans ((latest_of_nodup hnames).mpr ⟨hmem, hname⟩))
      · intro heq
        exact heq ▸ hname
    rw [hsame, Option.some.injEq]
    exact and_congr_right fun heq => heq ▸ Iff.rfl

/-- The name of a user comes back. -/
theorem shownUnder_iff_userName :
    ((standardAvpJson ++ []).map AvpJson.name).Nodup ∧
      ShownUnder (standardTexts true).toFormats (.new []) "User-Name" userNameAvp := by
  have hnames : ((standardAvpJson ++ []).map AvpJson.name).Nodup := by decide +kernel
  have hnamed : (AvpMap.new []).getByName "User-Name" =
      some ⟨"User-Name", 1, .utf8String, true, none⟩ := rfl
  have hmade : nameValueToAvp (standardTexts true) (.new []) "User-Name" (.string "bob") =
      some (some userNameAvp) := rfl
  refine ⟨hnames, (shownUnder_iff hnames hnamed hmade).mpr ⟨?_, by decide, ?_⟩⟩
  · exact ⟨standardAvpJson.take 46, standardAvpJson.drop 47, rfl, by decide +kernel⟩
  · show (String.fromUTF8? ⟨"bob".toUTF8.data.toList.toArray⟩).isSome = true
    decide +kernel

/-- A definition of a vendor with the code of `User-Name`. -/
def imsi : AvpJson := ⟨"3GPP-IMSI", 1, .utf8String, true, some 10415⟩

/-- Beside it the name of a user is shown as that of the vendor's AVP. -/
theorem not_shownUnder_userName :
    ((standardAvpJson ++ [imsi]).map AvpJson.name).Nodup ∧
      ((standardAvpJson ++ [imsi]).map fun d => (d.code, d.vendorId)).Nodup ∧
      nameValueToAvp (standardTexts true) (.new [imsi]) "User-Name" (.string "bob") =
        some (some userNameAvp) ∧
      ShownUnder (standardTexts true).toFormats (.new [imsi]) "3GPP-IMSI" userNameAvp ∧
      ¬ShownUnder (standardTexts true).toFormats (.new [imsi]) "User-Name" userNameAvp := by
  have hnamed : (AvpMap.new [imsi]).getByName "User-Name" =
      some ⟨"User-Name", 1, .utf8String, true, none⟩ := rfl
  have hlast : (AvpMap.new [imsi]).getByCode 1 = some imsi := rfl
  have hmade : nameValueToAvp (standardTexts true) (.new [imsi]) "User-Name" (.string "bob") =
      some (some userNameAvp) := rfl
  refine ⟨by decide +kernel, by decide +kernel, hmade, ?_, fun h => ?_⟩
  · have hdecode : decode userNameAvp.encode = .ok userNameAvp := rfl
    have htext : String.fromUTF8? ⟨"bob".toUTF8.data.toList.toArray⟩ = some "bob" :=
      fromUTF8_eq_some_iff.mpr rfl
    have hvalue : scalarToValue (standardTexts true).toFormats .utf8String userNameAvp =
        some ((String.fromUTF8? ⟨"bob".toUTF8.data.toList.toArray⟩).map .string) := rfl
    refine ⟨userNameAvp, .string "bob", hdecode, ?_⟩
    rw [avpToNameValue_of_scalar hlast (by decide)]
    show (scalarToValue (standardTexts true).toFormats .utf8String userNameAvp).map
      (·.map fun v => ("3GPP-IMSI", v)) = _
    rw [hvalue, htext]
    rfl
  · have hname := ((shownUnder_iff_name hnamed hlast hmade).mp h).1
    exact absurd hname (by decide)

end RestDiameterBridge
