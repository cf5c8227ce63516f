import RestDiameterBridge.CommandFromJson

/-!
# RestDiameterBridge.AvpFromJson

The header of an AVP made from JSON, as a peer reads it: is it the one its dictionary entry
asks for?

`nameValueToAvp_sized` says what the wire form of such an AVP declares, and that its length
is the one the JSON value stands for. `described_iff` then says for which values the
header comes through: a group loses its vendor id and always gets the mandatory bit, and the
declared length has 24 bits only.
-/

namespace RestDiameterBridge

open Bytes Avp

/-! ### What a value stands for -/

/-- The bytes a value of a type other than `Grouped` stands for, if it fits. Times wrap. -/
def scalarBytes (fmt : TextFormats) (avpType : AvpType) (value : Json) : Option (List UInt8) :=
  match avpType, value with
  | .octetString, .string s => some (base64Bytes fmt s)
  | .address, .string s => (Avp.fromAddress fmt 0 0 none s).data
  | .time, .number num => num.asU64.map fun u => toBeBytes (2208988800 + u.toUInt32)
  | .integer32, .number num | .enumerated, .number num =>
      num.asI64.map fun i => beBytes 4 (BitVec.ofInt 32 i).toNat
  | .unsigned32, .number num => num.asU64.map fun u => toBeBytes u.toUInt32
  | .integer64, .number num => num.asI64.map fun i => beBytes 8 (BitVec.ofInt 64 i).toNat
  | .unsigned64, .number num => num.asU64.map fun u => beBytes 8 u.toNat
  | .float32, .number num => some (beBytes 4 num.asF64.toFloat32.toBits.toNat)
  | .float64, .number num => some (beBytes 8 num.asF64.toBits.toNat)
  | .utf8String, .string s | .diameterIdentity, .string s | .diameterUri, .string s
  | .ipFilterRule, .string s => some s.toUTF8.data.toList
  | _, _ => none

/-- The value is a time that a build with overflow checks cannot count from 1900. -/
def TimeOverflows (fmt : Formats) (avpType : AvpType) (value : Json) : Prop :=
  fmt.overflowChecks = true ∧ avpType = .time ∧
    ∃ u, value.asU64 = some u ∧ 2 ^ 32 ≤ 2208988800 + u.toUInt32.toNat

section
variable {fmt : TextFormats} {map : AvpMap} {name : String} {value : Json} {named : AvpJson}
  {a : Avp}

theorem fromTime_eq (code : UInt32) (flags : UInt8) (vendorId : Option UInt32) (time : UInt32) :
    fromTime fmt.toFormats code flags vendorId time =
      if fmt.overflowChecks = true ∧ 2 ^ 32 ≤ 2208988800 + time.toNat then none
      else some (.new code flags vendorId (toBeBytes (2208988800 + time))) := by
  unfold fromTime
  simp only [Bool.and_eq_true, decide_eq_true_eq]
  rfl

/-- A scalar is made by `new` over the bytes of the value. -/
theorem scalarToAvp_eq_some (h : ¬TimeOverflows fmt.toFormats named.avpType value) :
    scalarToAvp fmt named value =
      some ((scalarBytes fmt named.avpType value).map
        (.new named.code named.flags named.vendorId)) := by
  obtain ⟨_, code, avpType, mandatory, vendorId⟩ := named
  cases avpType with
  | time =>
    cases value with
    | number num =>
      simp only [scalarToAvp, scalarBytes]
      cases hu : num.asU64 with
      | none => rfl
      | some u =>
        have hfits : ¬(fmt.overflowChecks = true ∧ 2 ^ 32 ≤ 2208988800 + u.toUInt32.toNat) := by
          intro hover
          exact h ⟨hover.1, rfl, u, hu, hover.2⟩
        simp only [fromTime_eq, if_neg hfits]
        rfl
    | _ => rfl
  | integer32 | enumerated | integer64 =>
    cases value with
    | number num =>
      simp only [scalarToAvp, scalarBytes]
      cases num.asI64 <;> rfl
    | _ => rfl
  | unsigned32 | unsigned64 =>
    cases value with
    | number num =>
      simp only [scalarToAvp, scalarBytes]
      cases num.asU64 <;> rfl
    | _ => rfl
  | _ => cases value <;> rfl

theorem scalarToAvp_eq_none (h : TimeOverflows fmt.toFormats named.avpType value) :
    scalarToAvp fmt named value = none := by
  obtain ⟨_, code, avpType, mandatory, vendorId⟩ := named
  obtain ⟨hchecks, htype, u, hu, hlarge⟩ := h
  obtain rfl : avpType = .time := htype
  cases value with
  | number num =>
    have hu' : num.asU64 = some u := hu
    simp only [scalarToAvp, hu', fromTime_eq, if_pos (And.intro hchecks hlarge)]
    rfl
  | _ => cases hu

end

/-! ### Sizes -/

/-- Bytes of the header of a type other than `Grouped`, by the definition. -/
def AvpJson.headerSize (named : AvpJson) : Nat := if named.vendorId.isSome then 12 else 8

mutual
/-- Bytes of header and data of the AVP a name and a JSON value stand for. A group is
written without a vendor id. -/
def jsonSize (fmt : TextFormats) (map : AvpMap) (name : String) (value : Json) : Nat :=
  match value with
  | .object obj => 8 + membersSize fmt map obj
  | value =>
      match map.getByName name with
      | some named =>
          named.headerSize + ((scalarBytes fmt named.avpType value).getD []).length
      | none => 8 + ((scalarBytes fmt .octetString value).getD []).length
termination_by structural value
/-- Bytes of several AVPs, each padded to four. -/
def membersSize (fmt : TextFormats) (map : AvpMap) (obj : List (String × Json)) : Nat :=
  match obj with
  | [] => 0
  | member :: rest =>
      memberSize fmt map member + padLen 4 (memberSize fmt map member) + membersSize fmt map rest
termination_by structural obj
/-- Bytes of one member of a group. -/
def memberSize (fmt : TextFormats) (map : AvpMap) (member : String × Json) : Nat :=
  match member with
  | (subName, subValue) => jsonSize fmt map subName subValue
termination_by structural member
end

section
variable {fmt : TextFormats} {map : AvpMap} {name : String} {value : Json} {named : AvpJson}
  {a : Avp}

@[simp] theorem memberSize_eq (member : String × Json) :
    memberSize fmt map member = jsonSize fmt map member.1 member.2 := by
  rw [memberSize]

theorem jsonSize_of_scalar (hnamed : map.getByName name = some named)
    (hvalue : ∀ obj, value ≠ .object obj) :
    jsonSize fmt map name value =
      named.headerSize + ((scalarBytes fmt named.avpType value).getD []).length := by
  cases value with
  | object obj => exact absurd rfl (hvalue obj)
  | _ => simp only [jsonSize, hnamed]

/-! ### AVPs that are made -/

/-- A group is made of one AVP for each member. -/
theorem membersToAvps_eq_some_iff {obj : List (String × Json)} {avps : List Avp} :
    membersToAvps fmt map obj = some (some avps) ↔
      List.Forall₂ (fun m a => nameValueToAvp fmt map m.1 m.2 = some (some a)) obj avps := by
  induction obj generalizing avps with
  | nil => simp [membersToAvps, eq_comm]
  | cons m rest ih =>
    rw [membersToAvps, memberToAvp_eq, List.forall₂_cons_left_iff]
    cases hm : nameValueToAvp fmt map m.1 m.2 with
    | none => simp
    | some r =>
      cases r with
      | none => simp
      | some a =>
        simp only [Option.map_eq_some_iff, ← ih, Option.some.injEq]
        constructor
        · intro hexists
          obtain ⟨_, hrest, avps', rfl, rfl⟩ := hexists
          exact ⟨a, avps', rfl, hrest, rfl⟩
        · intro hexists
          obtain ⟨_, avps', rfl, hrest, rfl⟩ := hexists
          exact ⟨some avps', hrest, avps', rfl, rfl⟩

theorem scalarBytes_object (avpType : AvpType) (obj : List (String × Json)) :
    scalarBytes fmt avpType (.object obj) = none := by
  cases avpType <;> rfl

/-- The code of the AVPs made under a name. -/
def AvpMap.nameCode (map : AvpMap) (name : String) : Option UInt32 :=
  match map.getByName name with
  | some named => some named.code
  | none => genericCode name

/-- The AVP that a name and a value stand for: a scalar over the bytes of the value, a
group over the AVPs of the members, or an AVP without a definition. -/
inductive Made (fmt : TextFormats) (map : AvpMap) (name : String) : Json → Avp → Prop
  | scalar {value : Json} {named : AvpJson} {data : List UInt8} :
      map.getByName name = some named → named.avpType ≠ .grouped →
      ¬TimeOverflows fmt.toFormats named.avpType value →
      scalarBytes fmt named.avpType value = some data →
      Made fmt map name value (.new named.code named.flags named.vendorId data)
  | group {obj : List (String × Json)} {named : AvpJson} {subAvps : List Avp} :
      map.getByName name = some named → named.avpType = .grouped →
      List.Forall₂ (fun m a => nameValueToAvp fmt map m.1 m.2 = some (some a)) obj subAvps →
      Made fmt map name (.object obj)
        (.fromGrouped named.code named.flags named.vendorId subAvps)
  | generic {s : String} {code : UInt32} :
      map.getByName name = none → genericCode name = some code →
      Made fmt map name (.string s) (.new code 0x00 none (base64Bytes fmt s))

theorem made_of_nameValueToAvp (h : nameValueToAvp fmt map name value = some (some a)) :
    Made fmt map name value a := by
  cases hnamed : map.getByName name with
  | some named =>
    by_cases htype : named.avpType = .grouped
    · cases value with
      | object obj =>
        rw [nameValueToAvp_of_grouped hnamed htype] at h
        obtain ⟨r, hr, hmap⟩ := Option.map_eq_some_iff.mp h
        obtain ⟨subAvps, rfl, rfl⟩ := Option.map_eq_some_iff.mp hmap
        exact .group hnamed htype (membersToAvps_eq_some_iff.mp hr)
      | _ =>
        rw [nameValueToAvp_of_not_object hnamed htype (by simp)] at h
        cases h
    · rw [nameValueToAvp_of_scalar hnamed htype] at h
      by_cases hoverflow : TimeOverflows fmt.toFormats named.avpType value
      · rw [scalarToAvp_eq_none hoverflow] at h
        cases h
      · rw [scalarToAvp_eq_some hoverflow] at h
        obtain ⟨data, hdata, rfl⟩ := Option.map_eq_some_iff.mp (Option.some.inj h)
        exact .scalar hnamed htype hoverflow hdata
  | none =>
    rw [nameValueToAvp_of_unknown hnamed] at h
    unfold genericAvp at h
    split at h
    · rename_i code s hcode
      obtain rfl := Option.some.inj (Option.some.inj h)
      exact .generic hnamed hcode
    · cases h

theorem nameCode_of_made (h : Made fmt map name value a) : map.nameCode name = some a.code := by
  unfold AvpMap.nameCode
  cases h with
  | scalar hnamed | group hnamed => rw [hnamed]; rfl
  | generic hnone hcode => rw [hnone]; exact hcode

/-! ### What is written -/

theorem new_mandatoryBit (code : UInt32) (flags : UInt8) (vendorId : Option UInt32)
    (data : List UInt8) :
    ((Avp.new code flags vendorId data).flags &&& 0x40 != 0) = (flags &&& 0x40 != 0) := by
  cases vendorId with
  | none =>
    exact forall_uint8 (p := fun f => (f &&& 0x7F &&& 0x40 != 0) = (f &&& 0x40 != 0))
      (by decide +kernel) flags
  | some v =>
    exact forall_uint8 (p := fun f => ((f ||| 0x80) &&& 0x40 != 0) = (f &&& 0x40 != 0))
      (by decide +kernel) flags

theorem AvpJson.flags_mandatoryBit (named : AvpJson) :
    (named.flags &&& 0x40 != 0) = named.mandatory := by
  unfold AvpJson.flags
  cases named.mandatory <;> rfl

theorem new_counted (code : UInt32) (flags : UInt8) (vendorId : Option UInt32)
    (data : List UInt8) : (Avp.new code flags vendorId data).Counted :=
  .scalar fun hbit => (new_vendorBit code flags vendorId data).symm.trans hbit

/-- The flags of a group made from JSON: the mandatory bit alone. -/
theorem fromGrouped_flags (code : UInt32) (named : AvpJson) (vendorId : Option UInt32)
    (subAvps : List Avp) : (fromGrouped code named.flags vendorId subAvps).flags = 0x40 := by
  unfold AvpJson.flags fromGrouped
  cases named.mandatory <;> rfl

/-- Header and payload of the AVP have the size of the JSON value. -/
theorem nameValueToAvp_sized (h : nameValueToAvp fmt map name value = some (some a)) :
    a.Counted ∧ (headerLength a.flags).toNat + a.payload.length = jsonSize fmt map name value := by
  induction value using Json.objectInduction generalizing name a with
  | object obj ih =>
    cases made_of_nameValueToAvp h with
    | scalar _ _ _ hdata =>
      rw [scalarBytes_object] at hdata
      cases hdata
    | @group _ named subAvps hnamed htype hmembers =>
      have hflags := fromGrouped_flags named.code named named.vendorId subAvps
      have hsubs : (∀ a ∈ subAvps, a.Counted) ∧
          (subAvps.flatMap encode).length = membersSize fmt map obj := by
        clear h
        induction hmembers with
        | nil => exact ⟨by simp, by rw [membersSize]; rfl⟩
        | @cons m sub obj subAvps hm _ ihrest =>
          obtain ⟨hcounted, hsize⟩ := ih m List.mem_cons_self hm
          obtain ⟨hall, hrest⟩ := ihrest (fun m' hm' => ih m' (List.mem_cons_of_mem _ hm'))
            (fromGrouped_flags _ _ _ _)
          refine ⟨List.forall_mem_cons.mpr ⟨hcounted, hall⟩, ?_⟩
          have hpad : padLen 4 (jsonSize fmt map m.1 m.2) = padLen 4 sub.payload.length := by
            rw [← hsize, padLen_header]
          rw [List.flatMap_cons, List.length_append, hcounted.length_encode, hrest, membersSize,
            memberSize_eq, hpad, hsize]
      refine ⟨.grouped ?_ hsubs.1, ?_⟩
      · intro hbit
        rw [show named.flags ||| 0x40 = 0x40 from hflags] at hbit
        cases hbit
      · rw [jsonSize, hflags, ← hsubs.2]
        rfl
  | other value hobj =>
    cases made_of_nameValueToAvp h with
    | @scalar _ named data hnamed htype _ hdata =>
      refine ⟨new_counted _ _ _ _, ?_⟩
      rw [new_headerLength, jsonSize_of_scalar hnamed hobj, hdata]
      rfl
    | group => exact absurd rfl (hobj _)
    | @generic s code hnone hcode =>
      refine ⟨new_counted _ _ _ _, ?_⟩
      simp only [new_headerLength, jsonSize, hnone]
      rfl

end

/-! ### The header a peer reads -/

/-- The bytes of the AVP decode to an AVP with the code and the vendor id of the definition,
and with the vendor and the mandatory bit it asks for. -/
def Avp.AsDefined (named : AvpJson) (a : Avp) : Prop :=
  ∃ d, Avp.decode a.encode = .ok d ∧ d.code = named.code ∧ d.vendorId = named.vendorId ∧
    (d.flags &&& 0x80 != 0) = named.vendorId.isSome ∧
    (d.flags &&& 0x40 != 0) = named.mandatory

mutual
/-- The AVP made for a name and a value is as the definition of the name says, and so are
the members of a group, each for its own name. -/
def Described (map : AvpMap) (name : String) (value : Json) (a : Avp) : Prop :=
  match value with
  | .object obj =>
      ∀ named, map.getByName name = some named →
        a.AsDefined named ∧ MembersDescribed map obj a.subAvps
  | _ => ∀ named, map.getByName name = some named → a.AsDefined named
termination_by structural value
/-- The AVPs made for several members are described. -/
def MembersDescribed (map : AvpMap) (obj : List (String × Json)) (avps : List Avp) : Prop :=
  match obj with
  | [] => avps = []
  | member :: rest =>
      ∃ a as, avps = a :: as ∧ MemberDescribed map member a ∧ MembersDescribed map rest as
termination_by structural obj
/-- The AVP made for a member is described. -/
def MemberDescribed (map : AvpMap) (member : String × Json) (a : Avp) : Prop :=
  match member with
  | (subName, subValue) => Described map subName subValue a
termination_by structural member
end

mutual
/-- The declared length covers the header, and a group is mandatory and of no vendor, at
every depth. -/
def KeepsHeader (fmt : TextFormats) (map : AvpMap) (name : String) (value : Json) : Prop :=
  match value with
  | .object obj =>
      ∀ named, map.getByName name = some named →
        (named.mandatory = true ∧ named.vendorId = none ∧
          8 ≤ jsonSize fmt map name (.object obj) % 2 ^ 24) ∧ MembersKeepHeader fmt map obj
  | value =>
      ∀ named, map.getByName name = some named →
        named.headerSize ≤ jsonSize fmt map name value % 2 ^ 24
termination_by structural value
/-- Every member keeps its header. -/
def MembersKeepHeader (fmt : TextFormats) (map : AvpMap) (obj : List (String × Json)) : Prop :=
  match obj with
  | [] => True
  | member :: rest => MemberKeepsHeader fmt map member ∧ MembersKeepHeader fmt map rest
termination_by structural obj
/-- A member keeps its header. -/
def MemberKeepsHeader (fmt : TextFormats) (map : AvpMap) (member : String × Json) : Prop :=
  match member with
  | (subName, subValue) => KeepsHeader fmt map subName subValue
termination_by structural member
end

section
variable {fmt : TextFormats} {map : AvpMap} {name : String} {value : Json} {named : AvpJson}
  {a : Avp}

/-- Of an AVP whose vendor bit follows its vendor id, a peer reads the header as it is. -/
theorem asDefined_iff (hcounted : a.Counted)
    (hvendor : (a.flags &&& 0x80 != 0) = a.vendorId.isSome) :
    a.AsDefined named ↔ (headerLength a.flags).toNat ≤ a.declaredLength ∧ a.code = named.code ∧
      a.vendorId = named.vendorId ∧ (a.flags &&& 0x80 != 0) = named.vendorId.isSome ∧
      (a.flags &&& 0x40 != 0) = named.mandatory := by
  have hdecode := decode_encode_declared hcounted hvendor []
  rw [List.append_nil] at hdecode
  unfold Avp.AsDefined
  rw [hdecode]
  by_cases hshort : a.declaredLength < (headerLength a.flags).toNat
  · rw [if_pos hshort]
    simp [Nat.not_le.mpr hshort]
  · rw [if_neg hshort]
    simp [Nat.not_lt.mp hshort]

theorem asDefined_new_iff {data : List UInt8} :
    (Avp.new named.code named.flags named.vendorId data).AsDefined named ↔
      named.headerSize ≤ (named.headerSize + data.length) % 2 ^ 24 := by
  have hheader : (headerLength (Avp.new named.code named.flags named.vendorId data).flags).toNat =
      named.headerSize := new_headerLength _ _ _ _
  have hdeclared : (Avp.new named.code named.flags named.vendorId data).declaredLength =
      (named.headerSize + data.length) % 2 ^ 24 := by
    rw [declaredLength, hheader]
    rfl
  have hvendor := new_vendorBit named.code named.flags named.vendorId data
  have hmandatory := (new_mandatoryBit named.code named.flags named.vendorId data).trans
    named.flags_mandatoryBit
  rw [asDefined_iff (new_counted _ _ _ _) hvendor, hheader, hdeclared]
  exact and_iff_left ⟨rfl, rfl, hvendor, hmandatory⟩

/-- Without the vendor bit no vendor id is written. -/
theorem encode_of_not_vendorSpecific (hbit : (a.flags &&& 0x80 != 0) = false)
    (vendorId : Option UInt32) : encode { a with vendorId } = a.encode := by
  obtain ⟨code, flags, vendorId', data, subAvps⟩ := a
  replace hbit : (flags &&& 0x80 != 0) = false := hbit
  cases data <;> simp only [encode, encodeHeader, totalLength, hbit] <;> rfl

theorem asDefined_fromGrouped_iff {subAvps : List Avp} (hsubs : ∀ m ∈ subAvps, m.Counted) :
    (fromGrouped named.code named.flags named.vendorId subAvps).AsDefined named ↔
      named.mandatory = true ∧ named.vendorId = none ∧
        8 ≤ (8 + (subAvps.flatMap encode).length) % 2 ^ 24 := by
  let written : Avp := ⟨named.code, 0x40, none, none, subAvps⟩
  have hbytes : (fromGrouped named.code named.flags named.vendorId subAvps).encode =
      written.encode := by
    have hflags := fromGrouped_flags named.code named named.vendorId subAvps
    have hgroup : fromGrouped named.code named.flags named.vendorId subAvps =
        ⟨named.code, 0x40, named.vendorId, none, subAvps⟩ := by
      rw [← hflags]
      rfl
    rw [hgroup]
    exact encode_of_not_vendorSpecific (a := written)
      (by decide : ((0x40 : UInt8) &&& 0x80 != 0) = false) named.vendorId
  have hbit : (written.flags &&& 0x80 != 0) = written.vendorId.isSome :=
    (by decide : ((0x40 : UInt8) &&& 0x80 != 0) = false)
  have hwritten : written.AsDefined named ↔ _ :=
    asDefined_iff (.grouped (fun hset => hbit ▸ hset) hsubs) hbit
  unfold Avp.AsDefined at hwritten ⊢
  rw [hbytes, hwritten]
  have hheader : (headerLength written.flags).toNat = 8 :=
    (by decide : (headerLength 0x40).toNat = 8)
  have hdeclared : written.declaredLength = (8 + (subAvps.flatMap encode).length) % 2 ^ 24 := by
    rw [declaredLength, hheader]
    rfl
  have hmandatoryBit : (written.flags &&& 0x40 != 0) = true :=
    (by decide : ((0x40 : UInt8) &&& 0x40 != 0) = true)
  rw [hdeclared, hheader, hbit, hmandatoryBit]
  constructor
  · intro h
    obtain ⟨hlength, -, hvendor, -, hmandatory⟩ := h
    exact ⟨hmandatory.symm, hvendor.symm, hlength⟩
  · intro h
    obtain ⟨hmandatory, hvendor, hlength⟩ := h
    rw [hmandatory, hvendor]
    exact ⟨hlength, rfl, rfl, rfl, rfl⟩

@[simp] theorem memberDescribed_eq (member : String × Json) :
    MemberDescribed map member a = Described map member.1 member.2 a := by
  rw [MemberDescribed]

theorem membersDescribed_iff {obj : List (String × Json)} {avps : List Avp} :
    MembersDescribed map obj avps ↔
      List.Forall₂ (fun m a => Described map m.1 m.2 a) obj avps := by
  induction obj generalizing avps with
  | nil => simp [MembersDescribed]
  | cons m rest ih =>
    simp only [MembersDescribed, memberDescribed_eq, List.forall₂_cons_left_iff, ih]
    constructor
    · intro hexists
      obtain ⟨a, as, rfl, hm, hrest⟩ := hexists
      exact ⟨a, as, hm, hrest, rfl⟩
    · intro hexists
      obtain ⟨a, as, hm, hrest, rfl⟩ := hexists
      exact ⟨a, as, rfl, hm, hrest⟩

theorem membersKeepHeader_iff {obj : List (String × Json)} :
    MembersKeepHeader fmt map obj ↔ ∀ m ∈ obj, KeepsHeader fmt map m.1 m.2 := by
  induction obj with
  | nil => simp [MembersKeepHeader]
  | cons m rest ih =>
    rw [MembersKeepHeader, MemberKeepsHeader, List.forall_mem_cons, ih]

end

/-- **Which AVPs made from JSON keep their header.** What a peer reads of an AVP made for a
name and a value is what the definitions ask for, at every depth, exactly if every declared
length covers its header and every group is mandatory and of no vendor. -/
theorem described_iff (fmt : TextFormats) (map : AvpMap) (name : String) (value : Json) (a : Avp)
    (h : nameValueToAvp fmt map name value = some (some a)) :
    Described map name value a ↔ KeepsHeader fmt map name value := by
  induction value using Json.objectInduction generalizing name a with
  | object obj ih =>
    cases made_of_nameValueToAvp h with
    | scalar _ _ _ hdata =>
      rw [scalarBytes_object] at hdata
      cases hdata
    | @group _ named subAvps hnamed htype hmembers =>
      have hcounted : ∀ m ∈ subAvps, m.Counted :=
        OrPanic.forall_mem_of_forall₂ hmembers fun m a hm => (nameValueToAvp_sized hm).1
      have hsize := (nameValueToAvp_sized h).2
      have hheader : (headerLength (fromGrouped named.code named.flags named.vendorId
          subAvps).flags).toNat = 8 := by
        rw [fromGrouped_flags]
        rfl
      rw [hheader] at hsize
      have hmembersIff : MembersDescribed map obj subAvps ↔ MembersKeepHeader fmt map obj := by
        rw [membersDescribed_iff, membersKeepHeader_iff]
        clear h hsize hheader hcounted
        induction hmembers with
        | nil => simp
        | @cons m sub obj subAvps hm _ ihrest =>
          rw [List.forall₂_cons, List.forall_mem_cons, ih m List.mem_cons_self _ _ hm,
            ihrest fun m' hm' => ih m' (List.mem_cons_of_mem _ hm')]
      have hdefined : (fromGrouped named.code named.flags named.vendorId subAvps).AsDefined named ↔
          named.mandatory = true ∧ named.vendorId = none ∧
            8 ≤ jsonSize fmt map name (.object obj) % 2 ^ 24 := by
        rw [← hsize]
        exact asDefined_fromGrouped_iff hcounted
      simp only [Described, KeepsHeader, hnamed, Option.some.injEq, forall_eq']
      exact and_congr hdefined hmembersIff
  | other value hobj =>
    have hdescribed : Described map name value a ↔
        ∀ named, map.getByName name = some named → a.AsDefined named := by
      cases value with
      | object obj => exact absurd rfl (hobj obj)
      | _ => simp only [Described]
    have hkeeps : KeepsHeader fmt map name value ↔
        ∀ named, map.getByName name = some named →
          named.headerSize ≤ jsonSize fmt map name value % 2 ^ 24 := by
      cases value with
      | object obj => exact absurd rfl (hobj obj)
      | _ => simp only [KeepsHeader]
    rw [hdescribed, hkeeps]
    refine forall_congr' fun named => imp_congr_right fun hnamed => ?_
    cases made_of_nameValueToAvp h with
    | @scalar _ named' data hnamed' htype _ hdata =>
      obtain rfl := Option.some.inj (hnamed.symm.trans hnamed')
      rw [asDefined_new_iff, jsonSize_of_scalar hnamed hobj, hdata]
      rfl
    | group => exact absurd rfl (hobj _)
    | generic hnone _ =>
      rw [hnamed] at hnone
      cases hnone

theorem described_iff_sessionId :
    nameValueToAvp (standardTexts false) (.new []) "Session-Id" (.string "a") =
        some (some (.new 263 0x40 none [97])) ∧
      (Described (.new []) "Session-Id" (.string "a") (.new 263 0x40 none [97]) ↔
        KeepsHeader (standardTexts false) (.new []) "Session-Id" (.string "a")) :=
  ⟨rfl, described_iff _ _ _ _ _ rfl⟩

/-- A group of a vendor. -/
def serviceInformation : AvpJson := ⟨"Service-Information", 873, .grouped, true, some 10415⟩

/-- Its header loses the vendor. -/
theorem not_described_serviceInformation :
    nameValueToAvp (standardTexts false) (.new [serviceInformation]) "Service-Information"
        (.object []) = some (some (.fromGrouped 873 0x40 (some 10415) [])) ∧
      ¬Described (.new [serviceInformation]) "Service-Information" (.object [])
        (.fromGrouped 873 0x40 (some 10415) []) := by
  have hnamed : (AvpMap.new [serviceInformation]).getByName "Service-Information" =
      some serviceInformation := rfl
  refine ⟨rfl, fun h => ?_⟩
  simp only [Described, hnamed, Option.some.injEq, forall_eq'] at h
  have hdefined : (Avp.fromGrouped serviceInformation.code serviceInformation.flags
      serviceInformation.vendorId []).AsDefined serviceInformation := h.1
  have hkept := (asDefined_fromGrouped_iff (by simp)).mp hdefined
  exact absurd hkept.2.1 (by decide)

end RestDiameterBridge
