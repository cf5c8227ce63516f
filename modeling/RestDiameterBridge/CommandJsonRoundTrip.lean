import RestDiameterBridge.CommandFromJsonTotal

/-!
# RestDiameterBridge.CommandJsonRoundTrip

From a command to JSON and back.

A scalar AVP comes back with its code, its vendor id and its data (`scalar_roundTrip`,
`nameValueToAvp_avpToNameValue`), and the AVPs of a command come back in the order of a
definition. The header is read back under the request definition of the code, whose flags
are added to those of the command: `roundTrips_iff` says which commands survive that.
-/

namespace RestDiameterBridge

open Bytes Avp

/-- The texts of data and of addresses are read back. -/
structure TextFormats.ReadsBack (fmt : TextFormats) : Prop where
  base64 : ∀ data, fmt.decodeBase64 (fmt.base64 data) = some data
  ipv4 : ∀ ip : Vector UInt8 4, fmt.parseIpv4 (fmt.ipv4 ip.toList) = some ip
  ipv6 : ∀ ip : Vector UInt8 16, fmt.parseIpv6 (fmt.ipv6 ip.toList) = some ip
  /-- The text of an IPv6 address is no IPv4 address. -/
  ipv6_not_ipv4 : ∀ ip : Vector UInt8 16, fmt.parseIpv4 (fmt.ipv6 ip.toList) = none

/-- And letters of ASCII have their own lower case. -/
structure TextFormats.Lawful (fmt : TextFormats) : Prop extends fmt.ReadsBack where
  toLowercase : ∀ s, (∀ c ∈ s.toList, c.toNat < 128) →
    (fmt.toLowercase s).toList = s.toList.map Char.toLower

theorem lawful_standardTexts (overflowChecks : Bool) : (standardTexts overflowChecks).Lawful where
  base64 data := by simp [standardTexts, Base64.decode_encode]
  ipv4 ip := by simp [standardTexts, AddressText.readIpv4_ipv4]
  ipv6 ip := by simp [standardTexts, AddressText.readIpv6_ipv6]
  ipv6_not_ipv4 ip := by simp [standardTexts, AddressText.readIpv4_ipv6]
  toLowercase s _ := by simp [standardTexts]

/-- Names with a meaning of their own at the top of the JSON form of a command. -/
def reservedNames : List String := "request" :: headerNames

/-- Names and codes belong to one another, and no name is reserved. -/
structure AvpMap.Bijective (map : AvpMap) : Prop where
  byCode : ∀ code named, map.getByCode code = some named →
    named.code = code ∧ map.getByName named.name = some named
  byName : ∀ name named, map.getByName name = some named →
    named.name = name ∧ map.getByCode named.code = some named
  notReserved : ∀ name named, map.getByName name = some named → name ∉ reservedNames

/-- The definitions of a dictionary are those of a list. -/
structure AvpMap.Lists (map : AvpMap) (avps : List AvpJson) : Prop where
  code : ∀ code named, map.getByCode code = some named ↔ named ∈ avps ∧ named.code = code
  name : ∀ name named, map.getByName name = some named ↔ named ∈ avps ∧ named.name = name

/-- Definitions with distinct codes and distinct names make a dictionary of just these. -/
theorem AvpMap.lists_new {avps : List AvpJson}
    (hcodes : ((standardAvpJson ++ avps).map AvpJson.code).Nodup)
    (hnames : ((standardAvpJson ++ avps).map AvpJson.name).Nodup) :
    (AvpMap.new avps).Lists (standardAvpJson ++ avps) where
  code code named := by
    rw [getByCode_new]
    exact Latest.latest_of_nodup hcodes
  name name named := by
    rw [getByName_new]
    exact Latest.latest_of_nodup hnames

/-- **Where the names and codes of a dictionary belong to one another.** -/
theorem AvpMap.bijective_new {avps : List AvpJson}
    (hcodes : ((standardAvpJson ++ avps).map AvpJson.code).Nodup)
    (hnames : ((standardAvpJson ++ avps).map AvpJson.name).Nodup)
    (hreserved : ∀ avp ∈ standardAvpJson ++ avps, avp.name ∉ reservedNames) :
    (AvpMap.new avps).Bijective := by
  have hlists := AvpMap.lists_new hcodes hnames
  refine ⟨fun code named hnamed => ?_, fun name named hnamed => ?_, fun name named hnamed => ?_⟩
  · obtain ⟨hmem, hcode⟩ := (hlists.code code named).mp hnamed
    exact ⟨hcode, (hlists.name _ _).mpr ⟨hmem, rfl⟩⟩
  · obtain ⟨hmem, hname⟩ := (hlists.name name named).mp hnamed
    exact ⟨hname, (hlists.code _ _).mpr ⟨hmem, rfl⟩⟩
  · obtain ⟨hmem, rfl⟩ := (hlists.name name named).mp hnamed
    exact hreserved named hmem

/-- Data of a scalar type that is no floating-point number. -/
def AvpType.Holds (avpType : AvpType) (data : List UInt8) : Prop :=
  match avpType with
  | octetString => True
  | address =>
      (beValue (data.take 2) = 1 ∧ data.length = 6) ∨ (beValue (data.take 2) = 2 ∧ data.length = 18)
  | utf8String | diameterIdentity | diameterUri | ipFilterRule =>
      (String.fromUTF8? ⟨data.toArray⟩).isSome
  | time | integer32 | enumerated | unsigned32 => data.length = 4
  | integer64 | unsigned64 => data.length = 8
  | float32 | float64 | grouped => False

/-- A scalar of the dictionary, with the vendor id, the vendor bit and the mandatory bit of
its definition. -/
structure Avp.WellTyped (map : AvpMap) (a : Avp) (named : AvpJson) (data : List UInt8) : Prop where
  definition : map.getByCode a.code = some named
  bytes : a.data = some data
  subAvps : a.subAvps = []
  holds : named.avpType.Holds data
  vendorId : a.vendorId = named.vendorId
  vendorBit : (a.flags &&& 0x80 != 0) = named.vendorId.isSome
  mandatoryBit : (a.flags &&& 0x40 != 0) = named.mandatory

/-! ### Scalars -/

section
variable {fmt : TextFormats} {map : AvpMap} {named : AvpJson} {data : List UInt8} {a : Avp}

theorem asNumber_eq {n : Nat} (hdata : a.data = some data) (hlength : data.length = n) :
    a.asNumber n = some (beValue data) := by
  rw [asNumber, hdata]
  exact if_pos hlength

theorem asUnsigned32_eq (hdata : a.data = some data) (hlength : data.length = 4) :
    a.asUnsigned32 = some (fromBeBytes data) := by
  rw [asUnsigned32, hdata]
  exact if_pos hlength

theorem toUInt32_toUInt64 (x : UInt32) : x.toNat.toUInt64.toUInt32 = x := by
  apply UInt32.toNat_inj.mp
  have := x.toNat_lt
  simp only [UInt64.toNat_toUInt32, Nat.toUInt64_eq, UInt64.toNat_ofNat']
  omega

theorem asU64_int {n : Nat} (hn : n < 2 ^ 64) : (JsonNumber.int n).asU64 = some n.toUInt64 := by
  have hrange : (0 : Int) ≤ n ∧ (n : Int) < 2 ^ 64 := by omega
  simp only [JsonNumber.asU64, if_pos hrange, Int.toNat_natCast]

theorem asU64_ofInt_toNat (x : UInt32) : (Json.ofInt x.toNat).asU64 = some x.toNat.toUInt64 := by
  have hlt : x.toNat < 2 ^ 64 := Nat.lt_trans x.toNat_lt (by omega)
  simp only [Json.ofInt, Json.asU64, asU64_int hlt]

/-- A number that fills its bytes comes back from its two's complement. -/
theorem beBytes_toInt {w bits : Nat} (hlength : data.length = w) (hbits : 256 ^ w = 2 ^ bits) :
    beBytes w (BitVec.ofInt bits (BitVec.ofNat bits (beValue data)).toInt).toNat = data := by
  have hlt : beValue data < 2 ^ bits := by
    rw [← hbits, ← hlength]
    exact beValue_lt data
  rw [BitVec.ofInt_toInt, BitVec.toNat_ofNat, Nat.mod_eq_of_lt hlt, ← hlength, beBytes_beValue]

/-- A number in two's complement of at most 64 bits is an `i64`. -/
theorem asI64_toInt {bits : Nat} (hbits : bits ≤ 64) (x : BitVec bits) :
    (JsonNumber.int x.toInt).asI64 = some x.toInt := by
  have hpow : (2 : Int) ^ (bits - 1) ≤ 2 ^ 63 := by
    exact_mod_cast Nat.pow_le_pow_right (n := 2) (by omega) (by omega : bits - 1 ≤ 63)
  have hlt := x.toInt_lt
  have hle := x.le_toInt
  exact if_pos ⟨by omega, by omega⟩

/-- An address comes back: the type in the first two bytes, the octets behind them. -/
theorem address_roundTrip (hfmt : fmt.ReadsBack) (hdata : a.data = some data)
    (hholds : AvpType.address.Holds data) :
    ∃ s, a.asAddress fmt.toFormats = some s ∧ (fromAddress fmt 0 0 none s).data = some data := by
  have hsplit : ∀ n, beValue (data.take 2) = n → 2 ≤ data.length →
      beBytes 2 n ++ data.drop 2 = data := by
    intro n hn hle
    have htake : beBytes 2 n = data.take 2 := by
      have hlength : (data.take 2).length = 2 := by rw [List.length_take]; omega
      have hback := beBytes_beValue (data.take 2)
      rwa [hlength, hn] at hback
    rw [htake, List.take_append_drop]
  rcases hholds with hv4 | hv6
  · obtain ⟨htype, hlength⟩ := hv4
    have hdrop : (data.drop 2).toArray.size = 4 := by simp [hlength]
    let ip : Vector UInt8 4 := ⟨(data.drop 2).toArray, hdrop⟩
    have hip : ip.toList = data.drop 2 := rfl
    refine ⟨fmt.ipv4 (data.drop 2), ?_, ?_⟩
    · simp [asAddress, hdata, htype, hlength]
    · simp only [fromAddress, ← hip, hfmt.ipv4]
      rw [hip]
      exact congrArg some (hsplit 1 htype (by omega))
  · obtain ⟨htype, hlength⟩ := hv6
    have hdrop : (data.drop 2).toArray.size = 16 := by simp [hlength]
    let ip : Vector UInt8 16 := ⟨(data.drop 2).toArray, hdrop⟩
    have hip : ip.toList = data.drop 2 := rfl
    refine ⟨fmt.ipv6 (data.drop 2), ?_, ?_⟩
    · simp [asAddress, hdata, htype, hlength]
    · simp only [fromAddress, ← hip, hfmt.ipv6, hfmt.ipv6_not_ipv4]
      rw [hip]
      exact congrArg some (hsplit 2 htype (by omega))

/-- A time comes back, also one that has wrapped. -/
theorem time_roundTrip (hdata : a.data = some data) (hlength : data.length = 4)
    (hfits : a.TimeFits fmt.toFormats) :
    ∃ v, scalarToValue fmt.toFormats .time a = some (some v) ∧
      scalarBytes fmt .time v = some data ∧ ¬TimeOverflows fmt.toFormats .time v := by
  have hvalue := asUnsigned32_eq hdata hlength
  let time := fromBeBytes data - unixEpoch
  have htime : a.asTime fmt.toFormats = some (some time) := by
    have hchecked : (fmt.overflowChecks && fromBeBytes data < 2208988800) = false := by
      cases hchecks : fmt.overflowChecks with
      | false => rfl
      | true => simpa [UInt32.not_lt] using hfits hchecks _ hvalue
    rw [asTime, hvalue]
    simp only [hchecked]
    rfl
  have hread := asU64_int (n := time.toNat) (Nat.lt_trans time.toNat_lt (by omega))
  have hback := toUInt32_toUInt64 time
  refine ⟨.ofInt time.toNat, ?_, ?_, ?_⟩
  · rw [scalarToValue, htime]
    rfl
  · simp only [scalarBytes, Json.ofInt, hread, Option.map_some, hback]
    have hsum : 2208988800 + time = fromBeBytes data := by
      rw [UInt32.add_comm]
      exact UInt32.sub_add_cancel _ _
    rw [hsum, toBeBytes_fromBeBytes hlength]
  · intro hoverflow
    obtain ⟨hchecks, -, u, hu, hlarge⟩ := hoverflow
    obtain rfl := Option.some.inj (hread.symm.trans hu)
    have hle := hfits hchecks _ hvalue
    have hsub : time.toNat = (fromBeBytes data).toNat - 2208988800 := UInt32.toNat_sub_of_le _ _ hle
    have hepoch : 2208988800 ≤ (fromBeBytes data).toNat := UInt32.le_iff_toNat_le.mp hle
    have hlt := (fromBeBytes data).toNat_lt
    rw [hback, hsub] at hlarge
    omega

/-- **A scalar comes back.** Its bytes are those of its JSON value. -/
theorem scalar_roundTrip (hfmt : fmt.ReadsBack) (avpType : AvpType) (hdata : a.data = some data)
    (hholds : avpType.Holds data) (hfits : avpType = .time → a.TimeFits fmt.toFormats) :
    ∃ v, scalarToValue fmt.toFormats avpType a = some (some v) ∧
      scalarBytes fmt avpType v = some data ∧ ¬TimeOverflows fmt.toFormats avpType v := by
  cases avpType with
  | octetString =>
    refine ⟨.string (fmt.base64 data), by rw [scalarToValue, hdata]; rfl, ?_, fun h => by cases h.2.1⟩
    rw [scalarBytes, base64Bytes, hfmt.base64]
    rfl
  | address =>
    obtain ⟨s, hs, hback⟩ := address_roundTrip hfmt hdata hholds
    exact ⟨.string s, by rw [scalarToValue, hs]; rfl, hback, fun h => by cases h.2.1⟩
  | time => exact time_roundTrip hdata hholds (hfits rfl)
  | utf8String | diameterIdentity | diameterUri | ipFilterRule =>
    obtain ⟨s, hs⟩ := Option.isSome_iff_exists.mp hholds
    refine ⟨.string s, by simp only [scalarToValue, hdata, Option.map_some, hs], ?_,
      fun h => by cases h.2.1⟩
    exact congrArg some (Avp.fromUTF8_eq_some_iff.mp hs).symm
  | integer32 | enumerated =>
    have hi : a.asInteger32 = some (BitVec.ofNat 32 (beValue data)).toInt := by
      rw [asInteger32, asNumber_eq hdata hholds]
      rfl
    have hread := asI64_toInt (by omega) (BitVec.ofNat 32 (beValue data))
    refine ⟨.ofInt (BitVec.ofNat 32 (beValue data)).toInt, by rw [scalarToValue, hi]; rfl, ?_,
      fun h => by cases h.2.1⟩
    simp only [scalarBytes, Json.ofInt, hread, Option.map_some]
    exact congrArg some (beBytes_toInt hholds (by norm_num))
  | unsigned32 =>
    have hread := asU64_int (n := (fromBeBytes data).toNat)
      (Nat.lt_trans (fromBeBytes data).toNat_lt (by omega))
    refine ⟨.ofInt (fromBeBytes data).toNat,
      by rw [scalarToValue, asUnsigned32_eq hdata hholds]; rfl, ?_, fun h => by cases h.2.1⟩
    simp only [scalarBytes, Json.ofInt, hread, Option.map_some, toUInt32_toUInt64]
    exact congrArg some (toBeBytes_fromBeBytes hholds)
  | integer64 =>
    have hi : a.asInteger64 = some (BitVec.ofNat 64 (beValue data)).toInt := by
      rw [asInteger64, asNumber_eq hdata hholds]
      rfl
    have hread := asI64_toInt (by omega) (BitVec.ofNat 64 (beValue data))
    refine ⟨.ofInt (BitVec.ofNat 64 (beValue data)).toInt, by rw [scalarToValue, hi]; rfl, ?_,
      fun h => by cases h.2.1⟩
    simp only [scalarBytes, Json.ofInt, hread, Option.map_some]
    exact congrArg some (beBytes_toInt hholds (by norm_num))
  | unsigned64 =>
    have hlength : data.length = 8 := hholds
    have hlt : beValue data < 2 ^ 64 := by
      have := beValue_lt data
      rw [hlength] at this
      omega
    have hu : a.asUnsigned64 = some (beValue data).toUInt64 := by
      rw [asUnsigned64, asNumber_eq hdata hholds]
      rfl
    have hvalue : (beValue data).toUInt64.toNat = beValue data := UInt64.toNat_ofNat_of_lt' hlt
    refine ⟨.ofInt (beValue data), by rw [scalarToValue, hu, Option.map_some, hvalue]; rfl, ?_,
      fun h => by cases h.2.1⟩
    simp only [scalarBytes, Json.ofInt, asU64_int hlt, Option.map_some, hvalue]
    exact congrArg some (hlength ▸ beBytes_beValue data)
  | float32 | float64 | grouped => exact hholds.elim

/-! ### AVPs -/

/-- The AVP with no flags but the vendor and the mandatory bit. -/
def Avp.definedBits (a : Avp) : Avp := { a with flags := a.flags &&& 0xC0 }

theorem flags_definedBits (flags : UInt8) :
    flags &&& 0xC0 = (if flags &&& 0x80 != 0 then 0x80 else 0) |||
      (if flags &&& 0x40 != 0 then 0x40 else 0) :=
  forall_uint8 (p := fun f => f &&& 0xC0 = (if f &&& 0x80 != 0 then 0x80 else 0) |||
    (if f &&& 0x40 != 0 then 0x40 else 0)) (by decide +kernel) flags

/-- What is made of the data of a well-typed AVP: the AVP without its other flags. -/
theorem Avp.WellTyped.new_eq (ha : a.WellTyped map named data) (hcode : named.code = a.code) :
    Avp.new named.code named.flags named.vendorId data = a.definedBits := by
  have hflags : (Avp.new named.code named.flags named.vendorId data).flags = a.flags &&& 0xC0 := by
    rw [flags_definedBits, ha.vendorBit, ha.mandatoryBit]
    have hbits : ∀ vendor mandatory : Bool,
        (if vendor then (if mandatory then 0x40 else 0x00) ||| 0x80
          else (if mandatory then 0x40 else 0x00) &&& 0x7F : UInt8) =
        (if vendor then 0x80 else 0) ||| (if mandatory then 0x40 else 0) := by decide
    exact hbits named.vendorId.isSome named.mandatory
  unfold Avp.definedBits
  rw [← hflags]
  obtain ⟨code, flags, vendorId, _, _⟩ := a
  obtain rfl : _ = some data := ha.bytes
  obtain rfl : _ = [] := ha.subAvps
  obtain rfl : vendorId = named.vendorId := ha.vendorId
  obtain rfl : named.code = code := hcode
  rfl

/-- A well-typed AVP comes back without its other flags, if its definition is found under
its name too. -/
theorem exists_nameValue_of_wellTyped (hfmt : fmt.ReadsBack) (ha : a.WellTyped map named data)
    (hcode : named.code = a.code) (hname : map.getByName named.name = some named)
    (hfits : named.avpType = .time → a.TimeFits fmt.toFormats) :
    ∃ v, avpToNameValue fmt.toFormats map a = some (some (named.name, v)) ∧
      nameValueToAvp fmt map named.name v = some (some a.definedBits) := by
  have hscalar : named.avpType ≠ .grouped := by
    intro htype
    have hholds := ha.holds
    rw [htype] at hholds
    exact hholds
  obtain ⟨v, hv, hback, htime⟩ := scalar_roundTrip hfmt named.avpType ha.bytes ha.holds hfits
  refine ⟨v, ?_, ?_⟩
  · rw [avpToNameValue_of_scalar ha.definition hscalar, hv]
    rfl
  · rw [nameValueToAvp_of_scalar hname hscalar, scalarToAvp_eq_some htime, hback, Option.map_some,
      ha.new_eq hcode]

theorem avp_roundTrip (hfmt : fmt.Lawful) (hmap : map.Bijective) (ha : a.WellTyped map named data)
    (hfits : named.avpType = .time → a.TimeFits fmt.toFormats) :
    ∃ v, Command.avpJson fmt.toFormats map a = some (named.name, v) ∧
      nameValueToAvp fmt map named.name v = some (some a.definedBits) := by
  obtain ⟨hcode, hname⟩ := hmap.byCode _ _ ha.definition
  obtain ⟨v, hshown, hread⟩ := exists_nameValue_of_wellTyped hfmt.toReadsBack ha hcode hname hfits
  refine ⟨v, ?_, hread⟩
  rw [Command.avpJson, hshown]
  rfl

theorem definedBits_eq_self_iff {a : Avp} : a.definedBits = a ↔ a.flags &&& 0x3F = 0 := by
  have hbits : a.flags &&& 0xC0 = a.flags ↔ a.flags &&& 0x3F = 0 :=
    forall_uint8 (p := fun f => f &&& 0xC0 = f ↔ f &&& 0x3F = 0) (by decide +kernel) a.flags
  rw [← hbits]
  constructor
  · exact congrArg Avp.flags
  · intro hflags
    obtain ⟨code, flags, vendorId, data, subAvps⟩ := a
    exact congrArg (Avp.mk code · vendorId data subAvps) hflags

/-- No name stands for two codes, and no code has two names. -/
def AvpMap.Distinct (avps : List AvpJson) : Prop :=
  ∀ d ∈ standardAvpJson ++ avps, ∀ e ∈ standardAvpJson ++ avps, d.name = e.name ↔ d.code = e.code

theorem AvpMap.distinct_of_nodup {avps : List AvpJson}
    (hcodes : ((standardAvpJson ++ avps).map AvpJson.code).Nodup)
    (hnames : ((standardAvpJson ++ avps).map AvpJson.name).Nodup) : AvpMap.Distinct avps := by
  intro d hd e he
  constructor
  · intro h
    exact congrArg AvpJson.code (List.inj_on_of_nodup_map hnames hd he h)
  · intro h
    exact congrArg AvpJson.name (List.inj_on_of_nodup_map hcodes hd he h)

/-- The definition of a code is also that of its name. -/
theorem AvpMap.Distinct.getByName {avps : List AvpJson} (h : AvpMap.Distinct avps) {code : UInt32}
    (hnamed : (AvpMap.new avps).getByCode code = some named) :
    named.code = code ∧ (AvpMap.new avps).getByName named.name = some named := by
  rw [getByCode_new, Latest.latest_eq_some_iff] at hnamed
  obtain ⟨before, after, hsplit, hcode, hlast⟩ := hnamed
  refine ⟨hcode, ?_⟩
  rw [getByName_new, Latest.latest_eq_some_iff]
  refine ⟨before, after, hsplit, rfl, fun e he hname => hlast e he ?_⟩
  have hmem : ∀ x ∈ named :: after, x ∈ standardAvpJson ++ avps := fun x hx =>
    hsplit ▸ List.mem_append_right _ hx
  have hsame := (h e (hmem e (List.mem_cons_of_mem _ he)) named (hmem named List.mem_cons_self)).mp
    hname
  exact hsame.trans hcode

/-- **An AVP by its name.** What is read from the name and the value of a well-typed AVP is
encoded like it. -/
theorem nameValueToAvp_avpToNameValue {avps : List AvpJson} (hfmt : fmt.ReadsBack)
    (hwraps : fmt.overflowChecks = false) (hdistinct : AvpMap.Distinct avps)
    (ha : a.WellTyped (.new avps) named data) (hbits : a.flags &&& 0x3F = 0) :
    ∃ name v a', avpToNameValue fmt.toFormats (.new avps) a = some (some (name, v)) ∧
      nameValueToAvp fmt (.new avps) name v = some (some a') ∧ a'.encode = a.encode := by
  obtain ⟨hcode, hname⟩ := hdistinct.getByName ha.definition
  have hfits : named.avpType = .time → a.TimeFits fmt.toFormats := fun _ hchecks =>
    absurd (hwraps.symm.trans hchecks) (by simp)
  obtain ⟨v, hshown, hread⟩ := exists_nameValue_of_wellTyped hfmt ha hcode hname hfits
  exact ⟨named.name, v, a.definedBits, hshown, hread,
    congrArg Avp.encode (definedBits_eq_self_iff.mpr hbits)⟩

/-- A time of the second era of the 32-bit clock. -/
theorem nameValueToAvp_avpToNameValue_eventTimestamp :
    ∃ name v a',
      avpToNameValue (standardTexts false).toFormats (.new []) (.new 55 0x40 none [0, 0, 0, 1]) =
        some (some (name, v)) ∧
      nameValueToAvp (standardTexts false) (.new []) name v = some (some a') ∧
      a'.encode = (Avp.new 55 0x40 none [0, 0, 0, 1]).encode := by
  have htyped : (Avp.new 55 0x40 none [0, 0, 0, 1]).WellTyped (.new [])
      ⟨"Event-Timestamp", 55, .time, true, none⟩ [0, 0, 0, 1] :=
    ⟨rfl, rfl, rfl, rfl, rfl, by decide, by decide⟩
  exact nameValueToAvp_avpToNameValue (lawful_standardTexts false).toReadsBack rfl
    (AvpMap.distinct_of_nodup (by decide +kernel) (by decide +kernel)) htyped (by decide)

end

/-! ### The header -/

section
variable {fmt : TextFormats} {map : AvpMap} {c c' : Command}

theorem readAvps_eq {name : String} {items : List Json}
    (h : Command.readAvps fmt map name c items = some c') :
    c' = { c with avps := c'.avps } := by
  unfold Command.readAvps at h
  induction items generalizing c with
  | nil =>
    obtain rfl := Option.some.inj h
    rfl
  | cons item items ih =>
    rw [List.foldlM_cons] at h
    obtain ⟨c₁, hstep, hrest⟩ := Option.bind_eq_some_iff.mp h
    obtain ⟨avp, -, rfl⟩ := Option.map_eq_some_iff.mp hstep
    have hsame := ih hrest
    exact hsame

/-- What a member changes in the header. -/
theorem readMember_header {m : String × Json} (h : Command.readMember fmt map c m = some c') :
    c'.code = c.code ∧
      c'.applicationId = (if m.1 = "application_id" then
        (m.2.asU64.map UInt64.toUInt32).getD c.applicationId else c.applicationId) ∧
      c'.hopByHopId = (if m.1 = "hop_by_hop_id" then (m.2.asU64.getD 0).toUInt32
        else c.hopByHopId) ∧
      c'.endToEndId = (if m.1 = "end_to_end_id" then (m.2.asU64.getD 0).toUInt32
        else c.endToEndId) ∧
      c'.flags = (if m.1 = "flags" then CommandFlags.orAll c.flags
        ((CommandFlags.fromStr fmt (m.2.asStr.getD "")).getD []) else c.flags) := by
  obtain ⟨k, v⟩ := m
  unfold Command.readMember at h
  dsimp only at h ⊢
  split at h <;> rename_i h1
  · obtain rfl := Option.some.inj h
    rcases h1 with rfl | rfl <;> simp
  · split at h <;> rename_i h2
    · subst h2
      split at h <;> rename_i hv <;> obtain rfl := Option.some.inj h <;> simp [hv]
    · split at h <;> rename_i h3
      · obtain rfl := Option.some.inj h
        simp [h3]
      · split at h <;> rename_i h4
        · obtain rfl := Option.some.inj h
          simp [h4]
        · split at h <;> rename_i h5
          · obtain rfl := Option.some.inj h
            simp [h5]
          · split at h <;> rename_i h6
            · obtain rfl := Option.some.inj h
              simp [h6]
            · rw [readAvps_eq h]
              simp [h2, h3, h4, h6]

/-- The members of the header that every command has. -/
def headerFields (c : Command) : List (String × Json) :=
  [("code", .ofInt c.code.toNat), ("application_id", .ofInt c.applicationId.toNat),
    ("hop_by_hop_id", .ofInt c.hopByHopId.toNat), ("end_to_end_id", .ofInt c.endToEndId.toNat),
    ("flags", .string (strFromU8 c.flags))]

/-- The members of the header, in some order: perhaps a name, and the fields. -/
theorem headerJson_perm (commandMap : CommandMap) (c : Command) :
    ∃ r, (r = [] ∨ ∃ longName, r = [("name", Json.string longName)]) ∧
      (c.headerJson commandMap).Perm (r ++ headerFields c) := by
  unfold Command.headerJson
  split
  · rename_i d hd
    refine ⟨[("name", .string d.longName)], .inr ⟨_, rfl⟩, ?_⟩
    have hnames : ([("name", Json.string d.longName)].map Prod.fst ++
        (headerFields c).map Prod.fst).Nodup := by simp [headerFields]
    exact Json.perm_insertAll hnames
  · exact ⟨[], .inl rfl, Json.perm_insertAll (by simp)⟩

theorem get_headerJson {commandMap : CommandMap} {m : String × Json} (h : m ∈ headerFields c) :
    Json.get (c.headerJson commandMap) m.1 = some m.2 := by
  obtain ⟨r, -, hperm⟩ := headerJson_perm commandMap c
  rw [Json.get_eq_some_iff (nodup_headerJson commandMap c), hperm.mem_iff]
  exact List.mem_append_right r h

/-- A name of the header is one that stands for no AVP, and not the kind of the command. -/
theorem mem_headerJson {commandMap : CommandMap} {m : String × Json}
    (h : m ∈ c.headerJson commandMap) : m.1 ∈ headerNames ∧ m.1 ≠ "request" ∧ m.2.isArray = false := by
  obtain ⟨r, hr, hperm⟩ := headerJson_perm commandMap c
  rw [hperm.mem_iff, List.mem_append] at h
  rcases h with h | h
  · rcases hr with rfl | hr
    · cases h
    · obtain ⟨longName, rfl⟩ := hr
      rw [List.mem_singleton.mp h]
      exact ⟨by simp [headerNames], by simp, rfl⟩
  · simp only [headerFields, List.mem_cons, List.not_mem_nil, or_false] at h
    rcases h with rfl | rfl | rfl | rfl | rfl <;>
      exact ⟨by simp [headerNames], by simp, rfl⟩

/-! ### The flags -/

/-- The flags among the four known ones whose bits are set. -/
def knownFlags (flags : UInt8) : List CommandFlags :=
  (if flags &&& 0x80 != 0 then [.request] else []) ++
    (if flags &&& 0x40 != 0 then [.proxiable] else []) ++
    (if flags &&& 0x20 != 0 then [.error] else []) ++
    (if flags &&& 0x10 != 0 then [.potentiallyRetransmitted] else [])

theorem orAll_knownFlags (flags : UInt8) :
    CommandFlags.orAll 0 (knownFlags flags) = flags &&& 0xF0 :=
  forall_uint8 (p := fun f => CommandFlags.orAll 0 (knownFlags f) = f &&& 0xF0)
    (by decide +kernel) flags

theorem toList_strFromU8 (flags : UInt8) :
    (strFromU8 flags).toList =
      (if flags &&& 0x80 != 0 then ['R'] else []) ++ (if flags &&& 0x40 != 0 then ['P'] else []) ++
        (if flags &&& 0x20 != 0 then ['E'] else []) ++
        (if flags &&& 0x10 != 0 then ['T'] else []) := by
  have hite : ∀ (p : Prop) [Decidable p] (s : String),
      (if p then s else "").toList = if p then s.toList else [] := by
    intro p _ s
    split <;> rfl
  simp only [strFromU8, String.toList_append, hite]
  rfl

/-- The letters of the flags name the flags that are set. -/
theorem fromStr_strFromU8 (hfmt : fmt.Lawful) (flags : UInt8) :
    (CommandFlags.fromStr fmt (strFromU8 flags)).getD [] = knownFlags flags := by
  have hlower : (fmt.toLowercase (strFromU8 flags)).toList =
      (strFromU8 flags).toList.map Char.toLower := by
    refine hfmt.toLowercase _ fun ch hch => ?_
    have hone : ∀ (p : Prop) [Decidable p] (letter : Char),
        ch ∈ (if p then [letter] else []) → ch = letter := by
      intro p _ letter hin
      split at hin
      · exact List.mem_singleton.mp hin
      · cases hin
    simp only [toList_strFromU8, List.mem_append] at hch
    rcases hch with ((hch | hch) | hch) | hch <;> rw [hone _ _ hch] <;> decide
  have hknown : ((fmt.toLowercase (strFromU8 flags)).toList.filterMap CommandFlags.ofChar) =
      knownFlags flags := by
    rw [hlower, toList_strFromU8, knownFlags]
    split <;> split <;> split <;> split <;> rfl
  rw [CommandFlags.fromStr, hknown]
  split
  · rename_i hempty
    rw [List.isEmpty_iff.mp hempty]
    rfl
  · rfl

/-! ### The command -/

/-- A JSON member that an AVP has become, and that becomes the AVP again, but for its other
flags. -/
structure ComesBack (fmt : TextFormats) (map : AvpMap) (a : Avp) (p : String × Json) : Prop where
  shown : Command.avpJson fmt.toFormats map a = some p
  notReserved : p.1 ∉ reservedNames
  read : nameValueToAvp fmt map p.1 p.2 = some (some a.definedBits)

/-- The JSON form of a command of well-typed AVPs whose times fit. -/
theorem exists_comesBack (hfmt : fmt.Lawful) (hmap : map.Bijective)
    (havps : ∀ a ∈ c.avps, ∃ named data, a.WellTyped map named data)
    (htimes : ∀ a ∈ c.avps, ∀ named, map.getByCode a.code = some named → named.avpType = .time →
      a.TimeFits fmt.toFormats) :
    ∃ values, List.Forall₂ (ComesBack fmt map) c.avps values := by
  refine OrPanic.exists_forall₂ fun a ha => ?_
  obtain ⟨named, data, hwell⟩ := havps a ha
  obtain ⟨v, hshown, hread⟩ := avp_roundTrip hfmt hmap hwell (htimes a ha named hwell.definition)
  exact ⟨(named.name, v), hshown, hmap.notReserved _ _ (hmap.byCode _ _ hwell.definition).2, hread⟩

section
variable {commandMap : CommandMap} {values : List (String × Json)}

theorem toJson_of_comesBack (hvalues : List.Forall₂ (ComesBack fmt map) c.avps values) :
    c.toJson fmt.toFormats commandMap map =
      some (.object (Json.collectAll (c.headerJson commandMap) values)) := by
  have hmapM := OrPanic.mapM_eq_some_iff.mpr (hvalues.imp fun _ _ h => h.shown)
  rw [Command.toJson, hmapM]
  rfl

theorem comesBack_notReserved (hvalues : List.Forall₂ (ComesBack fmt map) c.avps values) :
    ∀ p ∈ values, p.1 ∉ reservedNames :=
  OrPanic.forall_mem_of_forall₂ hvalues fun _ _ h => h.notReserved

/-- Collecting the AVPs leaves the header as it is. -/
theorem get_of_reserved (hvalues : List.Forall₂ (ComesBack fmt map) c.avps values) {name : String}
    (hname : name ∈ reservedNames) :
    Json.get (Json.collectAll (c.headerJson commandMap) values) name =
      Json.get (c.headerJson commandMap) name := by
  refine Json.get_collectAll_of_not_mem (nodup_headerJson commandMap c) fun hmem => ?_
  obtain ⟨p, hp, rfl⟩ := List.mem_map.mp hmem
  exact comesBack_notReserved hvalues p hp hname

/-- The definition is looked up by the code, as that of a request. -/
theorem getCommandDefine_toJson (hvalues : List.Forall₂ (ComesBack fmt map) c.avps values) :
    Command.getCommandDefine fmt (Json.collectAll (c.headerJson commandMap) values) commandMap =
      commandMap.getByCode c.code true := by
  have hcode : Json.get (Json.collectAll (c.headerJson commandMap) values) "code" =
      some (.ofInt c.code.toNat) := by
    rw [get_of_reserved hvalues (by simp [reservedNames, headerNames])]
    exact get_headerJson (m := ("code", .ofInt c.code.toNat)) (by simp [headerFields])
  have hrequest : Json.get (Json.collectAll (c.headerJson commandMap) values) "request" = none := by
    rw [get_of_reserved hvalues (by simp [reservedNames]), Json.get_eq_none]
    intro hmem
    obtain ⟨m, hm, heq⟩ := List.mem_map.mp hmem
    exact (mem_headerJson hm).2.1 heq
  rw [Command.getCommandDefine, hcode, hrequest, Option.bind_some, asU64_ofInt_toNat]
  simp only [toUInt32_toUInt64]
  rfl

theorem isArray_of_comesBack (hvalues : List.Forall₂ (ComesBack fmt map) c.avps values) :
    ∀ p ∈ values, p.2.isArray = false :=
  OrPanic.forall_mem_of_forall₂ hvalues fun _ _ h => isArray_avpJson h.shown

/-- No time overflows: outside the header every value is that of an AVP. -/
theorem timesCount_of_comesBack (hvalues : List.Forall₂ (ComesBack fmt map) c.avps values) :
    ∀ m ∈ Json.collectAll (c.headerJson commandMap) values, m.1 ∉ headerNames →
      ∀ item ∈ m.2.items, TimesCount fmt map m.1 item := by
  intro m hm hk item hitem
  have hslot : (m.1, item) ∈ Json.slots (Json.collectAll (c.headerJson commandMap) values) := by
    refine List.mem_flatMap.mpr ⟨m, hm, ?_⟩
    rw [Json.memberSlots_eq]
    exact List.mem_map_of_mem hitem
  rw [(Json.slots_collectAll (nodup_headerJson commandMap c)
    (isArray_of_comesBack hvalues)).mem_iff, List.mem_append,
    Json.slots_of_not_array fun m hm => (mem_headerJson hm).2.2] at hslot
  rcases hslot with hheader | hvalue
  · exact absurd (mem_headerJson hheader).1 hk
  · have hall : ∀ p ∈ values, TimesCount fmt map p.1 p.2 :=
      OrPanic.forall_mem_of_forall₂ hvalues fun _ _ h =>
        nameValueToAvp_settles.isSome_iff.mp (Option.isSome_of_eq_some h.read)
    exact hall _ hvalue

/-- The AVPs that are read from the members, in some order. -/
theorem perm_memberAvps (hvalues : List.Forall₂ (ComesBack fmt map) c.avps values) :
    ((Json.collectAll (c.headerJson commandMap) values).flatMap (memberAvps fmt map)).Perm
      (c.avps.map Avp.definedBits) := by
  let slotAvps (m : String × Json) : List Avp :=
    if m.1 ∈ headerNames then [] else itemAvps fmt map m.1 m.2
  have hslots : ∀ members : List (String × Json),
      members.flatMap (memberAvps fmt map) = (Json.slots members).flatMap slotAvps := by
    intro members
    rw [Json.slots, List.flatMap_assoc]
    refine List.flatMap_congr fun m _ => ?_
    rw [Json.memberSlots_eq, List.flatMap_map, memberAvps]
    by_cases hm : m.1 ∈ headerNames
    · simp [slotAvps, hm]
    · simp [slotAvps, hm]
  have harray := isArray_of_comesBack hvalues
  have hheader : (Json.slots (c.headerJson commandMap)).flatMap slotAvps = [] := by
    rw [Json.slots_of_not_array fun m hm => (mem_headerJson hm).2.2, List.flatMap_eq_nil_iff]
    intro m hm
    simp [slotAvps, (mem_headerJson hm).1]
  have hback : values.flatMap slotAvps = c.avps.map Avp.definedBits := by
    clear hheader harray
    generalize c.avps = avps at hvalues ⊢
    induction hvalues with
    | nil => rfl
    | @cons a p avps values hp _ ih =>
      have hnot : p.1 ∉ headerNames := fun hin => hp.notReserved (List.mem_cons_of_mem _ hin)
      rw [List.flatMap_cons, List.map_cons, ih]
      simp [slotAvps, hnot, itemAvps, hp.read]
  rw [hslots, ← hback]
  have hperm := (Json.slots_collectAll (nodup_headerJson commandMap c) harray).flatMap_right slotAvps
  rw [List.flatMap_append, hheader, List.nil_append] at hperm
  exact hperm

/-- The fields of the header are those of the command. -/
theorem get_collectAll_header (hvalues : List.Forall₂ (ComesBack fmt map) c.avps values)
    {m : String × Json} (hm : m ∈ headerFields c) :
    Json.get (Json.collectAll (c.headerJson commandMap) values) m.1 = some m.2 := by
  have hreserved : m.1 ∈ reservedNames := by
    simp only [headerFields, List.mem_cons, List.not_mem_nil, or_false] at hm
    rcases hm with rfl | rfl | rfl | rfl | rfl <;> simp [reservedNames, headerNames]
  exact (get_of_reserved hvalues hreserved).trans (get_headerJson hm)

/-- The header that is read from the members. -/
theorem readMembers_header (hfmt : fmt.Lawful)
    (hvalues : List.Forall₂ (ComesBack fmt map) c.avps values) {start read : Command}
    (hread : (Json.collectAll (c.headerJson commandMap) values).foldlM
      (Command.readMember fmt map) start = some read) :
    read.code = start.code ∧ read.applicationId = c.applicationId ∧
      read.hopByHopId = c.hopByHopId ∧ read.endToEndId = c.endToEndId ∧
      read.flags = CommandFlags.orAll start.flags (knownFlags c.flags) := by
  have hnodup : ((Json.collectAll (c.headerJson commandMap) values).map Prod.fst).Nodup :=
    Json.nodup_collectAll (nodup_headerJson commandMap c)
  have hcode := Json.foldlM_get "code" Command.code (fun _ code => code)
    (fun _ _ _ h => by simp [(readMember_header h).1]) hnodup hread
  have happ := Json.foldlM_get "application_id" Command.applicationId
    (fun v id => (v.asU64.map UInt64.toUInt32).getD id)
    (fun _ _ _ h => (readMember_header h).2.1) hnodup hread
  have hhop := Json.foldlM_get "hop_by_hop_id" Command.hopByHopId
    (fun v _ => (v.asU64.getD 0).toUInt32)
    (fun _ _ _ h => (readMember_header h).2.2.1) hnodup hread
  have hend := Json.foldlM_get "end_to_end_id" Command.endToEndId
    (fun v _ => (v.asU64.getD 0).toUInt32)
    (fun _ _ _ h => (readMember_header h).2.2.2.1) hnodup hread
  have hflags := Json.foldlM_get "flags" Command.flags
    (fun v flags => CommandFlags.orAll flags
      ((CommandFlags.fromStr fmt (v.asStr.getD "")).getD []))
    (fun _ _ _ h => (readMember_header h).2.2.2.2) hnodup hread
  rw [get_collectAll_header hvalues
    (m := ("code", .ofInt c.code.toNat)) (by simp [headerFields])] at hcode
  rw [get_collectAll_header hvalues
    (m := ("application_id", .ofInt c.applicationId.toNat)) (by simp [headerFields])] at happ
  rw [get_collectAll_header hvalues
    (m := ("hop_by_hop_id", .ofInt c.hopByHopId.toNat)) (by simp [headerFields])] at hhop
  rw [get_collectAll_header hvalues
    (m := ("end_to_end_id", .ofInt c.endToEndId.toNat)) (by simp [headerFields])] at hend
  rw [get_collectAll_header hvalues
    (m := ("flags", .string (strFromU8 c.flags))) (by simp [headerFields])] at hflags
  simp only [asU64_ofInt_toNat, Option.map_some, Option.getD_some,
    toUInt32_toUInt64] at happ hhop hend
  rw [← fromStr_strFromU8 hfmt]
  exact ⟨hcode, happ, hhop, hend, hflags⟩

/-- The command that is read back. -/
theorem fromJsonValue_toJson (hfmt : fmt.Lawful)
    (hvalues : List.Forall₂ (ComesBack fmt map) c.avps values) {d : CommandJson}
    (hd : commandMap.getByCode c.code true = some d) :
    ∃ c', Command.fromJsonValue fmt commandMap map
        (.object (Json.collectAll (c.headerJson commandMap) values)) = some (.ok c') ∧
      c'.code = d.code ∧ c'.flags = d.flags ||| (c.flags &&& 0xF0) ∧
      c'.applicationId = c.applicationId ∧ c'.hopByHopId = c.hopByHopId ∧
      c'.endToEndId = c.endToEndId ∧ c'.avps.Perm (c.avps.map Avp.definedBits) := by
  have hdefine : Command.getCommandDefine fmt
      (Json.collectAll (c.headerJson commandMap) values) commandMap = some d :=
    (getCommandDefine_toJson hvalues).trans hd
  obtain ⟨c', hc'⟩ := (fromJsonValue_ok_iff hdefine).mpr (timesCount_of_comesBack hvalues)
  have havps := (fromJsonValue_avps hc').trans (perm_memberAvps hvalues)
  refine ⟨c', hc', ?_⟩
  simp only [Command.fromJsonValue, hdefine] at hc'
  obtain ⟨read, hread, heq⟩ := Option.map_eq_some_iff.mp hc'
  obtain rfl := Except.ok.inj heq
  obtain ⟨hcode, happ, hhop, hend, hflags⟩ := readMembers_header hfmt hvalues hread
  refine ⟨hcode, ?_, happ, hhop, hend, havps⟩
  show d.flags ||| read.flags = _
  rw [hflags, orAll_knownFlags]

end

/-- The JSON form of the command is read back as the command, but for the order of the
AVPs. -/
def Command.RoundTrips (fmt : TextFormats) (commandMap : CommandMap) (map : AvpMap) (c : Command) :
    Prop :=
  ∃ json c', c.toJson fmt.toFormats commandMap map = some json ∧
    Command.fromJsonValue fmt commandMap map json = some (.ok c') ∧
    c'.code = c.code ∧ c'.flags = c.flags ∧ c'.applicationId = c.applicationId ∧
    c'.hopByHopId = c.hopByHopId ∧ c'.endToEndId = c.endToEndId ∧ c'.avps.Perm c.avps

/-- The other flags are lost exactly if there are some. -/
theorem perm_definedBits_iff {avps : List Avp} :
    (avps.map Avp.definedBits).Perm avps ↔ ∀ a ∈ avps, a.flags &&& 0x3F = 0 := by
  constructor
  · intro hperm a ha
    obtain ⟨b, -, rfl⟩ := List.mem_map.mp (hperm.mem_iff.mpr ha)
    exact forall_uint8 (p := fun f => f &&& 0xC0 &&& 0x3F = 0) (by decide +kernel) b.flags
  · intro h
    have hsame : avps.map Avp.definedBits = avps :=
      (List.map_congr_left fun a ha => definedBits_eq_self_iff.mpr (h a ha)).trans (List.map_id avps)
    rw [hsame]

/-- **When a command survives the way to JSON and back.** A command whose flags are known
and whose AVPs are well typed comes back exactly if its code is defined for requests, that
definition adds no flag, the AVPs have no flags besides those of their definition, and its
times can be written. -/
theorem roundTrips_iff {commands : List CommandJson} (hfmt : fmt.Lawful) (hmap : map.Bijective)
    (hflags : c.flags &&& 0x0F = 0)
    (havps : ∀ a ∈ c.avps, ∃ named data, a.WellTyped map named data) :
    c.RoundTrips fmt (.new fmt.toLowercase commands) map ↔
      (∃ d, (CommandMap.new fmt.toLowercase commands).getByCode c.code true = some d ∧
        d.flags ||| c.flags = c.flags) ∧
      (∀ a ∈ c.avps, a.flags &&& 0x3F = 0) ∧
      (∀ a ∈ c.avps, ∀ named, map.getByCode a.code = some named → named.avpType = .time →
        a.TimeFits fmt.toFormats) := by
  have hknown : c.flags &&& 0xF0 = c.flags :=
    forall_uint8 (p := fun f => f &&& 0x0F = 0 → f &&& 0xF0 = f) (by decide +kernel) c.flags hflags
  constructor
  · intro h
    obtain ⟨json, c', hjson, hread, hcode, hflags', -, -, -, hperm⟩ := h
    have htimes : ∀ a ∈ c.avps, ∀ named, map.getByCode a.code = some named →
        named.avpType = .time → a.TimeFits fmt.toFormats := by
      intro a ha named hnamed htype
      have hshows := toJson_isSome_iff_shows.mp (Option.isSome_of_eq_some hjson) a ha
      have hshowable := hshows a (.top (List.mem_singleton_self a))
      rw [Avp.Showable, hnamed] at hshowable
      exact hshowable.2 htype
    obtain ⟨values, hvalues⟩ := exists_comesBack hfmt hmap havps htimes
    rw [toJson_of_comesBack hvalues] at hjson
    obtain rfl := Option.some.inj hjson
    have hdefine : Command.getCommandDefine fmt
        (Json.collectAll (c.headerJson (.new fmt.toLowercase commands)) values)
        (.new fmt.toLowercase commands) =
          (CommandMap.new fmt.toLowercase commands).getByCode c.code true :=
      getCommandDefine_toJson hvalues
    cases hd : (CommandMap.new fmt.toLowercase commands).getByCode c.code true with
    | none =>
      rw [hd] at hdefine
      simp [Command.fromJsonValue, hdefine] at hread
    | some d =>
      obtain ⟨c'', hread', -, hflags'', -, -, -, hperm'⟩ := fromJsonValue_toJson hfmt hvalues hd
      obtain rfl := Except.ok.inj (Option.some.inj (hread'.symm.trans hread))
      rw [hknown, hflags'] at hflags''
      exact ⟨⟨d, rfl, hflags''.symm⟩, perm_definedBits_iff.mp (hperm'.symm.trans hperm), htimes⟩
  · intro h
    obtain ⟨⟨d, hd, hadded⟩, hbits, htimes⟩ := h
    obtain ⟨values, hvalues⟩ := exists_comesBack hfmt hmap havps htimes
    obtain ⟨c', hread, hcode, hflags', happ, hhop, hend, hperm⟩ :=
      fromJsonValue_toJson hfmt hvalues hd
    rw [hknown, hadded] at hflags'
    have hdcode : d.code = c.code := ((CommandMap.codesFit_new commands).getByCode hd).1
    exact ⟨_, c', toJson_of_comesBack hvalues, hread, hcode.trans hdcode, hflags', happ, hhop, hend,
      hperm.trans (perm_definedBits_iff.mpr hbits)⟩

end

/-! ### A request that comes back, and an answer that does not -/

theorem bijective_standard : (AvpMap.new []).Bijective :=
  AvpMap.bijective_new (by decide +kernel) (by decide +kernel) (by decide +kernel)

/-- The name of a user. -/
def userNameAvp : Avp := .new 1 0x40 none "bob".toUTF8.data.toList

/-- An accounting request. -/
def accountingRequest : Command :=
  { code := 271, flags := 0xC0, applicationId := 3, hopByHopId := 7, endToEndId := 8
    avps := [userNameAvp] }

/-- An answer to it. -/
def accountingAnswer : Command := { accountingRequest with flags := 0x40, avps := [] }

theorem roundTrips_iff_accountingRequest :
    accountingRequest.RoundTrips (standardTexts true) (.new (standardTexts true).toLowercase [])
      (.new []) := by
  have htyped : ∀ a ∈ accountingRequest.avps, ∃ named data,
      a.WellTyped (AvpMap.new []) named data := by
    intro a ha
    obtain rfl := List.mem_singleton.mp ha
    have htext : (String.fromUTF8? ⟨"bob".toUTF8.data.toList.toArray⟩).isSome := by decide +kernel
    exact ⟨⟨"User-Name", 1, .utf8String, true, none⟩, "bob".toUTF8.data.toList,
      rfl, rfl, rfl, htext, rfl, by decide, by decide⟩
  refine (roundTrips_iff (lawful_standardTexts true) bijective_standard (by decide) htyped).mpr
    ⟨⟨standardCommands[2], rfl, by decide⟩, by decide, ?_⟩
  intro a ha named hnamed htype
  obtain rfl := List.mem_singleton.mp ha
  obtain rfl := Option.some.inj hnamed
  cases htype

/-- An answer, of a command that is defined and without AVPs, does not come back. -/
theorem not_roundTrips_accountingAnswer :
    (CommandMap.new (standardTexts true).toLowercase []).getByCode accountingAnswer.code false =
        some standardCommands[3] ∧
      ¬accountingAnswer.RoundTrips (standardTexts true) (.new (standardTexts true).toLowercase [])
        (.new []) := by
  refine ⟨rfl, fun h => ?_⟩
  obtain ⟨json, c', hjson, hread, -, hflags, -⟩ := h
  have hvalues : List.Forall₂ (ComesBack (standardTexts true) (.new [])) accountingAnswer.avps [] :=
    .nil
  rw [toJson_of_comesBack hvalues] at hjson
  obtain rfl := Option.some.inj hjson
  -- the definition of the request is found, and makes a request of the answer
  have hd : (CommandMap.new (standardTexts true).toLowercase []).getByCode accountingAnswer.code true =
      some standardCommands[2] := rfl
  obtain ⟨c'', hread', -, hflags', -⟩ := fromJsonValue_toJson (lawful_standardTexts true) hvalues hd
  obtain rfl := Except.ok.inj (Option.some.inj (hread'.symm.trans hread))
  rw [hflags] at hflags'
  exact absurd hflags' (by decide)

end RestDiameterBridge
