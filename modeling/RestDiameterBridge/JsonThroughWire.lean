import RestDiameterBridge.AvpNameBack
import RestDiameterBridge.AvpTree
import RestDiameterBridge.CommandAvpOrder
import RestDiameterBridge.CommandHandler
import RestDiameterBridge.CommandJsonEntries

/-!
# RestDiameterBridge.JsonThroughWire

A JSON value that is posted, written as an AVP, read by a peer and shown there as JSON
(`name_value_to_avp`, `Avp::encode`, `Avp::decode`, `avp_to_name_value` in `src/avp.rs`).

A value is `Presented` under a name if it has the form in which the data of the name's type
is shown: a number in range, an address in its own text, an object with its members in the
order of their names. Such a value arrives as it was sent (`shown_of_presented`). Vendor ids
of groups are lost on the way, but no name depends on them.
-/

namespace RestDiameterBridge

open Bytes Avp

/-! ### Values as they are shown -/

/-- A value in the form in which data of the type is shown. Doubles are left out. -/
def AvpType.Writes (fmt : TextFormats) (avpType : AvpType) (value : Json) : Prop :=
  match avpType, value with
  | octetString, .string s => ∃ data, fmt.base64 data = s
  | address, .string s => fmt.addressText s = some s
  | utf8String, .string _ | diameterIdentity, .string _ | diameterUri, .string _
  | ipFilterRule, .string _ => True
  | avpType, .number (.int i) => avpType.InRange i
  | _, _ => False

/-- A value in the form in which AVPs of the name are shown. An empty group is not. -/
inductive Presented (fmt : TextFormats) (map : AvpMap) : String → Json → Prop
  | scalar {name : String} {value : Json} {named : AvpJson} :
      map.getByName name = some named → named.avpType.Writes fmt value →
      Presented fmt map name value
  | group {name : String} {obj : List (String × Json)} {named : AvpJson} :
      map.getByName name = some named → named.avpType = .grouped → obj ≠ [] →
      (obj.map Prod.fst).Pairwise (· < ·) → (∀ m ∈ obj, Presented fmt map m.1 m.2) →
      Presented fmt map name (.object obj)

section
variable {fmt : TextFormats} {map : AvpMap} {name : String} {value : Json} {a : Avp}
  {avpType : AvpType} {code : UInt32} {flags : UInt8} {vendorId : Option UInt32}
  {data : List UInt8} {i : Int}

/-! ### Scalars -/

theorem accepts_of_inRange (h : avpType.InRange i) : avpType.Accepts i := by
  cases avpType <;> simp only [AvpType.InRange, AvpType.Accepts] at h ⊢ <;> omega

/-- A number that an AVP holds is shown as it is. -/
theorem scalarToValue_of_holdsExactly (hrange : avpType.InRange i)
    (h : (new code flags vendorId data).HoldsExactly fmt avpType (.number (.int i))) :
    scalarToValue fmt.toFormats avpType (new code flags vendorId data) =
      some (some (.number (.int i))) := by
  cases avpType with
  | integer32 | enumerated =>
    have hread : (new code flags vendorId data).asInteger32 = some i := h
    rw [scalarToValue, hread]
    rfl
  | integer64 =>
    have hread : (new code flags vendorId data).asInteger64 = some i := h
    rw [scalarToValue, hread]
    rfl
  | unsigned32 =>
    obtain ⟨u, hread, rfl⟩ := Option.map_eq_some_iff.mp h
    rw [scalarToValue, hread]
    rfl
  | unsigned64 =>
    obtain ⟨u, hread, rfl⟩ := Option.map_eq_some_iff.mp h
    rw [scalarToValue, hread]
    rfl
  | time =>
    obtain ⟨r, hread, hr⟩ := Option.map_eq_some_iff.mp h.1
    obtain ⟨t, rfl, rfl⟩ := Option.map_eq_some_iff.mp hr
    rw [scalarToValue, hread]
    rfl
  | _ => exact hrange.elim

/-- A time that 32 bits from 1900 hold does not overflow. -/
theorem not_timeOverflows_of_inRange (h : avpType.InRange i) :
    ¬TimeOverflows fmt.toFormats avpType (.number (.int i)) := by
  intro hoverflow
  exact not_fitsType_of_timeOverflows hoverflow (fitsType_number.mpr fun _ => h)

/-- A scalar in the form in which it is shown: its bytes are shown as the value. -/
theorem exists_scalarBytes_of_writes (hfmt : fmt.ReadsBack) (h : avpType.Writes fmt value) :
    avpType ≠ .grouped ∧ (∀ obj, value ≠ .object obj) ∧
      ¬TimeOverflows fmt.toFormats avpType value ∧
      ∃ data, scalarBytes fmt avpType value = some data ∧ ∀ code flags vendorId,
        scalarToValue fmt.toFormats avpType (new code flags vendorId data) = some (some value) := by
  cases value with
  | number num =>
    cases num with
    | int i =>
      have hrange : avpType.InRange i := by
        cases avpType <;> exact h
      have hscalar : avpType ≠ .grouped := by
        rintro rfl
        exact hrange
      obtain ⟨data, hdata⟩ := exists_scalarBytes fmt (accepts_of_inRange hrange)
      refine ⟨hscalar, by simp, not_timeOverflows_of_inRange hrange, data, hdata, ?_⟩
      intro code flags vendorId
      exact scalarToValue_of_holdsExactly hrange
        ((holdsExactly_iff (accepts_of_inRange hrange) hdata).mpr hrange)
    | float f => cases avpType <;> exact h.elim
  | string s =>
    have htime : ∀ {avpType}, ¬TimeOverflows fmt.toFormats avpType (.string s) := by
      intro avpType hoverflow
      obtain ⟨-, -, u, hu, -⟩ := hoverflow
      cases hu
    cases avpType with
    | octetString =>
      obtain ⟨data, rfl⟩ := h
      refine ⟨by simp, by simp, htime, data, ?_, fun code flags vendorId => rfl⟩
      rw [scalarBytes, base64Bytes, hfmt.base64]
      rfl
    | address =>
      have hbytes : scalarBytes fmt .address (.string s) = some _ := rfl
      refine ⟨by simp, by simp, htime, _, hbytes, fun code flags vendorId => ?_⟩
      have htext : fmt.addressText s = some s := h
      have hexact : (new code flags vendorId _).HoldsExactly fmt .address (.string s) :=
        (holdsExactly_address_iff hbytes).mpr (Option.isSome_of_eq_some htext)
      obtain ⟨text, ht, hread⟩ := hexact
      obtain rfl := Option.some.inj (htext.symm.trans ht)
      rw [scalarToValue, hread]
      rfl
    | utf8String | diameterIdentity | diameterUri | ipFilterRule =>
      refine ⟨by simp, by simp, htime, _, rfl, fun code flags vendorId => ?_⟩
      have hread : String.fromUTF8? ⟨s.toUTF8.data.toList.toArray⟩ = some s :=
        fromUTF8_eq_some_iff.mpr rfl
      show some ((String.fromUTF8? ⟨s.toUTF8.data.toList.toArray⟩).map Json.string) = _
      rw [hread]
      rfl
    | _ => exact h.elim
  | _ => cases avpType <;> exact h.elim

/-! ### Over the wire -/

/-- An AVP whose length fits its field arrives with its whole payload. -/
theorem received_eq_of_fits
    (hfits : (headerLength a.flags).toNat + a.payload.length < 2 ^ 24) :
    a.received = { a.wire with vendorId := if a.flags &&& 0x80 != 0 then a.vendorId else none } := by
  have hdeclared : a.declaredLength = (headerLength a.flags).toNat + a.payload.length :=
    Nat.mod_eq_of_lt hfits
  rw [received, hdeclared, Nat.add_sub_cancel_left, List.take_length]
  rfl

/-- Without a group the AVP arrives as it was made. -/
theorem received_new (hfits : (headerLength (new code flags vendorId data).flags).toNat +
    (new code flags vendorId data).payload.length < 2 ^ 24) :
    (new code flags vendorId data).received = new code flags vendorId data := by
  have hbit := new_vendorBit code flags vendorId data
  rw [received_eq_of_fits hfits, hbit]
  cases vendorId <;> rfl

theorem payload_received (hfits : (headerLength a.flags).toNat + a.payload.length < 2 ^ 24) :
    a.received.payload = a.payload := by
  rw [received_eq_of_fits hfits]
  rfl

theorem wellFormed_received (hvendor : (a.flags &&& 0x80 != 0) = true → a.vendorId.isSome = true) :
    a.received.WellFormed := by
  refine .scalar ?_
  cases hbit : (a.flags &&& 0x80 != 0) with
  | true => simpa using (hvendor hbit).symm
  | false => rfl

/-- What arrives is written as the same bytes. -/
theorem encode_received (hcounted : a.Counted)
    (hvendor : (a.flags &&& 0x80 != 0) = true → a.vendorId.isSome = true)
    (hfits : (headerLength a.flags).toNat + a.payload.length < 2 ^ 24) :
    a.received.encode = a.encode := by
  have hpayload := payload_received hfits
  have htotal : a.received.totalLength = a.totalLength := by
    apply UInt32.toNat_inj.mp
    rw [(wellFormed_received hvendor).counted.total, hcounted.total, hpayload]
    rfl
  have hheader : encodeHeader a.received.code a.received.flags a.received.vendorId
      a.totalLength = encodeHeader a.code a.flags a.vendorId a.totalLength := by
    show encodeHeader a.code a.flags (if a.flags &&& 0x80 != 0 then a.vendorId else none) _ = _
    cases hbit : (a.flags &&& 0x80 != 0) with
    | true => rfl
    | false => simp [encodeHeader, hbit]
  rw [encode_eq, encode_eq a, htotal, hpayload, hheader]

/-- The AVP of a value that fits its length field arrives as `received`. -/
structure Arrives (a : Avp) : Prop where
  counted : a.Counted
  vendor : (a.flags &&& 0x80 != 0) = true → a.vendorId.isSome = true
  fits : (headerLength a.flags).toNat + a.payload.length < 2 ^ 24

theorem arrives_of_nameValueToAvp (h : nameValueToAvp fmt map name value = some (some a))
    (hsize : jsonSize fmt map name value < 2 ^ 24) : Arrives a := by
  obtain ⟨hcounted, hsized⟩ := nameValueToAvp_sized h
  exact ⟨hcounted, vendor_of_made (made_of_nameValueToAvp h), hsized ▸ hsize⟩

/-- The members of a group are read off its bytes. -/
theorem asGrouped_received {subAvps : List Avp} (hfits : Arrives a)
    (hpayload : a.payload = subAvps.flatMap encode) (hsubs : ∀ m ∈ subAvps, Arrives m)
    (hne : subAvps ≠ []) : a.received.asGrouped = some (subAvps.map received) := by
  have hsame : ∀ m ∈ subAvps, m.received.encode = m.encode := fun m hm =>
    encode_received (hsubs m hm).counted (hsubs m hm).vendor (hsubs m hm).fits
  have hbytes : a.payload = (subAvps.map received).flatMap encode := by
    rw [hpayload, List.flatMap_map]
    exact (List.flatMap_congr hsame).symm
  have hwf : ∀ m ∈ subAvps.map received, m.WellFormed := by
    intro r hr
    obtain ⟨m, hm, rfl⟩ := List.mem_map.mp hr
    exact wellFormed_received (hsubs m hm).vendor
  have hshort : ∀ m ∈ subAvps.map received, m.encode.length < 2 ^ 24 := by
    intro m hm
    have hle := length_encode_le_flatMap hm
    rw [← hbytes] at hle
    have := hfits.fits
    have := le_headerLength a.flags
    omega
  have hdecode := Command.decodeAvps_flatMap hwf hshort [] [] []
  rw [List.nil_append, List.append_nil, List.length_nil, Nat.zero_add, List.nil_append,
    ← hbytes] at hdecode
  have hwire : (subAvps.map received).map wire = subAvps.map received := by
    rw [List.map_map]
    rfl
  rw [hwire] at hdecode
  have hlong : 8 ≤ a.payload.length := by
    obtain ⟨m, rest, rfl⟩ := List.exists_cons_of_ne_nil hne
    have hlength := (hsubs m List.mem_cons_self).counted.length_encode
    have := le_headerLength m.flags
    rw [hpayload, List.flatMap_cons, List.length_append]
    omega
  have hdata : a.received.data = some a.payload := by
    rw [received_eq_of_fits hfits.fits]
    rfl
  exact (AvpTree.asGrouped_eq_some_iff hdata).mpr ⟨hlong, hdecode⟩

/-! ### From JSON to JSON -/

theorem member_jsonSize_le {obj : List (String × Json)} {m : String × Json} (hm : m ∈ obj) :
    jsonSize fmt map m.1 m.2 ≤ membersSize fmt map obj := by
  induction obj with
  | nil => cases hm
  | cons m' obj ih =>
    rw [membersSize, memberSize_eq]
    rcases List.mem_cons.mp hm with rfl | hm
    · omega
    · have := ih hm
      omega

/-- A presented value makes an AVP, and what arrives of one that fits is shown as the value
under its name. -/
theorem shown_of_presented (hfmt : fmt.ReadsBack) (hmap : map.Bijective)
    (h : Presented fmt map name value) :
    ∃ a, nameValueToAvp fmt map name value = some (some a) ∧
      (jsonSize fmt map name value < 2 ^ 24 →
        avpToNameValue fmt.toFormats map a.received = some (some (name, value))) := by
  induction value using Json.objectInduction generalizing name with
  | object obj ih =>
    cases h with
    | scalar hnamed hwrites => exact absurd rfl ((exists_scalarBytes_of_writes hfmt hwrites).2.1 obj)
    | @group _ _ named hnamed htype hne hsorted hmembers =>
      obtain ⟨hname, hcode⟩ := hmap.byName _ _ hnamed
      obtain ⟨subAvps, hsubs⟩ := OrPanic.exists_forall₂ fun m hm => ih m hm (hmembers m hm)
      have hmade : nameValueToAvp fmt map name (.object obj) =
          some (some (fromGrouped named.code named.flags named.vendorId subAvps)) := by
        rw [nameValueToAvp_of_grouped hnamed htype,
          membersToAvps_eq_some_iff.mpr (hsubs.imp fun _ _ hm => hm.1)]
        rfl
      refine ⟨_, hmade, fun hsize => ?_⟩
      have hsizes : ∀ m ∈ obj, jsonSize fmt map m.1 m.2 < 2 ^ 24 := by
        intro m hm
        have hle : jsonSize fmt map m.1 m.2 ≤ membersSize fmt map obj := member_jsonSize_le hm
        rw [jsonSize] at hsize
        omega
      have hfit := (List.forall₂_and_left _ _).mpr ⟨hsizes, hsubs⟩
      have harrives : ∀ a ∈ subAvps, Arrives a :=
        OrPanic.forall_mem_of_forall₂ hfit fun m a hm => arrives_of_nameValueToAvp hm.2.1 hm.1
      have hnonempty : subAvps ≠ [] := by
        rintro rfl
        exact hne (List.forall₂_nil_right_iff.mp hsubs)
      have hgrouped : _ = some (subAvps.map received) :=
        asGrouped_received (arrives_of_nameValueToAvp hmade hsize) rfl harrives hnonempty
      have hconverts : List.Forall₂
          (fun m p => avpToNameValue fmt.toFormats map m = some (some p))
          (subAvps.map received) obj := by
        rw [List.forall₂_map_left_iff]
        exact List.Forall₂.flip (hfit.imp fun _ _ hm => hm.2.2 hm.1)
      have hcode' : map.getByCode
          (fromGrouped named.code named.flags named.vendorId subAvps).received.code =
            some named := hcode
      rw [avpToNameValue_of_grouped hcode' htype hgrouped, insertMembers_of_converts _ hconverts,
        Json.insertAll_of_pairwise (by simpa using hsorted), hname]
      rfl
  | other value hobj =>
    cases h with
    | @scalar _ _ named hnamed hwrites =>
      obtain ⟨hname, hcode⟩ := hmap.byName _ _ hnamed
      obtain ⟨hscalar, -, htime, data, hdata, hshown⟩ := exists_scalarBytes_of_writes hfmt hwrites
      have hmade : nameValueToAvp fmt map name value =
          some (some (.new named.code named.flags named.vendorId data)) := by
        rw [nameValueToAvp_of_scalar hnamed hscalar, scalarToAvp_eq_some htime, hdata]
        rfl
      refine ⟨_, hmade, fun hsize => ?_⟩
      have hsame := received_new (arrives_of_nameValueToAvp hmade hsize).fits
      have hcode' : map.getByCode (new named.code named.flags named.vendorId data).code =
          some named := hcode
      rw [hsame, avpToNameValue_of_scalar hcode' hscalar, hshown, hname]
      rfl
    | group => exact absurd rfl (hobj _)

end

/-! ### Commands -/

/-- The command that a receiver reads. -/
def Command.received (c : Command) : Command := { c with avps := c.avps.map Avp.received }

/-- A member of a body that peers show as it is: a presented value, or the array of several. -/
structure PostedEntry (fmt : TextFormats) (map : AvpMap) (m : String × Json) : Prop where
  presented : ∀ item ∈ m.2.items, Presented fmt map m.1 item
  gathered : Json.gather m.2.items = some m.2

/-- A body whose AVPs peers show as they are. -/
structure PostedBody (fmt : TextFormats) (map : AvpMap) (obj : List (String × Json)) : Prop where
  nodup : (obj.map Prod.fst).Nodup
  entries : ∀ m ∈ obj, m.1 ∉ reservedNames → PostedEntry fmt map m

section
variable {fmt : TextFormats} {commandMap : CommandMap} {map : AvpMap} {c : Command}
  {obj : List (String × Json)} {d : CommandJson} {name : String} {a : Avp}

/-- The AVPs of a command that fits its length field fit theirs. -/
theorem arrives_of_mem (hcounted : a.Counted)
    (hvendor : (a.flags &&& 0x80 != 0) = true → a.vendorId.isSome = true)
    (hsize : c.encode.length < 2 ^ 24) (ha : a ∈ c.avps) : Arrives a := by
  refine ⟨hcounted, hvendor, ?_⟩
  have hle := length_encode_le_flatMap ha
  have hlength := c.length_encode
  have := hcounted.length_encode
  omega

/-- What arrives of a command whose AVPs fit is a command, written as the same bytes. -/
theorem wellFormed_received_command (hcode : c.code.toNat < 2 ^ 24)
    (havps : ∀ a ∈ c.avps, Arrives a) (hsize : c.encode.length < 2 ^ 24) :
    c.received.encode = c.encode ∧ c.received.WellFormed := by
  have hsame : ∀ a ∈ c.avps, a.received.encode = a.encode := fun a ha =>
    encode_received (havps a ha).counted (havps a ha).vendor (havps a ha).fits
  have hwf : ∀ a ∈ c.avps, a.received.WellFormed := fun a ha => wellFormed_received (havps a ha).vendor
  have hflat : c.received.avps.flatMap encode = c.avps.flatMap encode := by
    rw [Command.received, List.flatMap_map]
    exact List.flatMap_congr hsame
  have hsum : (c.received.avps.map fun a => a.totalLengthIncludingPadding.toNat) =
      c.avps.map fun a => a.totalLengthIncludingPadding.toNat := by
    rw [Command.received, List.map_map]
    refine List.map_congr_left fun a ha => ?_
    show a.received.totalLengthIncludingPadding.toNat = _
    rw [(hwf a ha).counted.padded, (havps a ha).counted.padded, hsame a ha]
  have hencode : c.received.encode = c.encode := by
    simp only [Command.encode, hsum, hflat]
    rfl
  refine ⟨hencode, hcode, fun r hr => ?_, by rw [hencode]; exact hsize⟩
  obtain ⟨a, ha, rfl⟩ := List.mem_map.mp hr
  exact hwf a ha

theorem wire_received_command : c.received.wire = c.received := by
  rw [Command.wire, Command.received, List.map_map]
  rfl

/-- A command whose AVPs fit is read as it was made. -/
theorem decode_encode_received_command (hcode : c.code.toNat < 2 ^ 24)
    (havps : ∀ a ∈ c.avps, Arrives a) (hsize : c.encode.length < 2 ^ 24) :
    c.received.encode = c.encode ∧ Command.decode c.encode = .ok c.received := by
  obtain ⟨hencode, hwf⟩ := wellFormed_received_command hcode havps hsize
  refine ⟨hencode, ?_⟩
  rw [← hencode, Command.decode_encode hwf, wire_received_command]

/-- The AVPs of a command made from an object, in the order of its definition. -/
theorem avps_of_fromJsonValue (hd : Command.getCommandDefine fmt obj commandMap = some d)
    (h : Command.fromJsonValue fmt commandMap map (.object obj) = some (.ok c)) :
    c.avps = d.sortAvps map (bodyAvps fmt map obj) := by
  simp only [Command.fromJsonValue, hd] at h
  obtain ⟨read, hread, heq⟩ := Option.map_eq_some_iff.mp h
  obtain rfl := Except.ok.inj heq
  have havps := readMembers_avps hread
  rw [List.nil_append] at havps
  exact congrArg (d.sortAvps map) havps

/-- AVPs of one name keep their order. -/
theorem filter_sortAvps (avps : List Avp) (name : String) :
    (d.sortAvps map avps).filter (·.name map = some name) =
      avps.filter (·.name map = some name) := by
  have hsorted : StableSort.SortedBy (d.place map) avps (d.sortAvps map avps) :=
    StableSort.sortedBy_mergeSort (d.place map) avps
  refine hsorted.filter_eq (k := (d.avps.idxOf? name).getD (2 ^ 64 - 1)) fun a ha => ?_
  rw [place_eq, of_decide_eq_true ha]
  rfl

/-- Where AVPs have the names of their entries, those of one name are of the entries under it. -/
theorem filter_filterMap_convertEntry {entries : List (String × Json)}
    (h : ∀ e ∈ entries, ∀ a, convertEntry fmt map e = some a → a.name map = some e.1) :
    (entries.filterMap (convertEntry fmt map)).filter (·.name map = some name) =
      (entries.filter (·.1 = name)).filterMap (convertEntry fmt map) := by
  induction entries with
  | nil => rfl
  | cons e entries ih =>
    rw [List.forall_mem_cons] at h
    rw [List.filterMap_cons, List.filter_cons]
    cases ha : convertEntry fmt map e with
    | none =>
      rw [ih h.2]
      split <;> simp [ha]
    | some a =>
      have hname := h.1 a ha
      rw [List.filter_cons, ih h.2, hname]
      by_cases he : e.1 = name <;> simp [he, ha]

/-- An entry of a posted body is a presented value, or says the kind of the command. -/
theorem presented_of_mem_bodyEntries (hbody : PostedBody fmt map obj) {e : String × Json}
    (he : e ∈ bodyEntries obj) : e.1 ∉ headerNames ∧ (e.1 ≠ "request" → Presented fmt map e.1 e.2) := by
  obtain ⟨m, hm, hslot⟩ := List.mem_flatMap.mp he
  obtain ⟨hm, hheader⟩ := List.mem_filter.mp hm
  rw [Json.memberSlots_eq] at hslot
  obtain ⟨item, hitem, rfl⟩ := List.mem_map.mp hslot
  have hnot : m.1 ∉ headerNames := by simpa using hheader
  refine ⟨hnot, fun hrequest => (hbody.entries m hm ?_).presented item hitem⟩
  exact fun hmem => (List.mem_cons.mp hmem).elim hrequest hnot

/-- The kind of the command makes no AVP. -/
theorem convertEntry_request (hmap : map.Bijective) (value : Json) :
    convertEntry fmt map ("request", value) = none := by
  have hnone : map.getByName "request" = none := by
    cases hnamed : map.getByName "request" with
    | none => rfl
    | some named => exact absurd (by simp [reservedNames]) (hmap.notReserved _ _ hnamed)
  rw [convertEntry, nameValueToAvp_of_unknown hnone]
  rfl

theorem Presented.named {value : Json} (h : Presented fmt map name value) :
    ∃ named, map.getByName name = some named := by
  cases h with
  | scalar hnamed | group hnamed => exact ⟨_, hnamed⟩

/-- The values that a body has under a name, one by one. -/
theorem values_bodyEntries (hnodup : (obj.map Prod.fst).Nodup) (hname : name ∉ headerNames) :
    ((bodyEntries obj).filter (·.1 = name)).map Prod.snd =
      ((Json.get obj name).map Json.items).getD [] := by
  induction obj with
  | nil => rfl
  | cons m obj ih =>
    obtain ⟨hnot, hnodup⟩ := List.nodup_cons.mp hnodup
    have hsplit : bodyEntries (m :: obj) =
        (if m.1 ∈ headerNames then [] else m.2.items.map (m.1, ·)) ++ bodyEntries obj := by
      rw [bodyEntries, List.filter_cons]
      by_cases hm : m.1 ∈ headerNames
      · simp [hm, bodyEntries]
      · simp [hm, bodyEntries, Json.slots, Json.memberSlots_eq]
    rw [hsplit, List.filter_append, List.map_append, ih hnodup]
    by_cases hm : m.1 = name
    · subst hm
      have hnone : Json.get obj m.1 = none := Json.get_eq_none.mpr hnot
      have hsome : Json.get (m :: obj) m.1 = some m.2 := by simp [Json.get]
      have hall : (m.2.items.map (m.1, ·)).filter (fun e : String × Json => e.1 = m.1) =
          m.2.items.map (m.1, ·) := by
        rw [List.filter_eq_self]
        simp
      rw [hnone, hsome, if_neg hname, hall]
      simp
    · have hskip : Json.get (m :: obj) name = Json.get obj name := by simp [Json.get, hm]
      rw [hskip]
      have hnil : ((if m.1 ∈ headerNames then [] else m.2.items.map (m.1, ·)).filter
          fun e : String × Json => e.1 = name) = [] := by
        rw [List.filter_eq_nil_iff]
        intro e he
        split at he
        · cases he
        · obtain ⟨item, -, rfl⟩ := List.mem_map.mp he
          simpa using hm
      rw [hnil]
      rfl

/-- What a receiver is shown of AVPs that all have a JSON value. -/
theorem toJson_of_shown (commandMap : CommandMap) (hmap : map.SparesHeader)
    {values : List (String × Json)}
    (h : List.Forall₂ (fun a p => avpToNameValue fmt.toFormats map a = some (some p)) c.avps values) :
    ∃ members, c.toJson fmt.toFormats commandMap map = some (.object members) ∧
      (∀ name ∉ headerKeys,
        Json.get members name = Json.gather ((values.filter (·.1 = name)).map Prod.snd)) ∧
      ∀ field ∈ headerFields c, Json.get members field.1 = some field.2 := by
  have hconv : List.Forall₂ (fun a p => Command.avpJson fmt.toFormats map a = some p) c.avps values :=
    h.imp fun a p hp => by rw [Command.avpJson, hp]; rfl
  have hnodup := nodup_headerJson commandMap c
  have harray : ∀ p ∈ values, p.2.isArray = false :=
    OrPanic.forall_mem_of_forall₂ h fun a p hp => (avpToNameValue_some hp).2
  have hspared : ∀ p ∈ values, p.1 ∉ headerKeys :=
    OrPanic.forall_mem_of_forall₂ hconv fun a p hp => avpJson_not_mem_headerKeys hmap hp
  refine ⟨Json.collectAll (c.headerJson commandMap) values, ?_, fun name hname => ?_,
    fun field hfield => ?_⟩
  · rw [Command.toJson, OrPanic.mapM_eq_some_iff.mpr hconv]
    rfl
  · exact Json.get_collectAll hnodup
      (fun hmem => hname (headerJson_names commandMap c name hmem)) harray
  · have hkey : field.1 ∈ headerKeys :=
      List.mem_cons_of_mem _ (List.mem_map_of_mem (f := Prod.fst) hfield)
    refine (Json.get_collectAll_of_not_mem hnodup fun hmem => ?_).trans (get_headerJson hfield)
    obtain ⟨p, hp, heq⟩ := List.mem_map.mp hmem
    exact hspared p hp (heq ▸ hkey)

theorem AvpMap.Bijective.sparesHeader (hmap : map.Bijective) : map.SparesHeader := by
  intro code named hnamed hmem
  refine hmap.notReserved _ _ (hmap.byCode _ _ hnamed).2 ?_
  simp only [headerKeys, reservedNames, headerNames, List.mem_cons, List.not_mem_nil, or_false]
    at hmem ⊢
  tauto

/-- The AVP has the name, and if it fits its length field, it arrives as one that is shown
as the value. -/
structure Avp.ArrivesAs (fmt : TextFormats) (map : AvpMap) (a : Avp) (p : String × Json) : Prop where
  counted : a.Counted
  vendor : (a.flags &&& 0x80 != 0) = true → a.vendorId.isSome = true
  name : a.name map = some p.1
  shown : Arrives a → avpToNameValue fmt.toFormats map a.received = some (some p)

/-- An entry of a posted body makes an AVP, which arrives as the entry. -/
theorem arrivesAs_of_entry (hfmt : fmt.ReadsBack) (hmap : map.Bijective)
    (hbody : PostedBody fmt map obj) {e : String × Json} (he : e ∈ bodyEntries obj)
    (hrequest : e.1 ≠ "request") :
    ∃ a, convertEntry fmt map e = some a ∧ a.ArrivesAs fmt map e := by
  have hpresented := (presented_of_mem_bodyEntries hbody he).2 hrequest
  obtain ⟨named, hnamed⟩ := hpresented.named
  obtain ⟨a, hmade, hshown⟩ := shown_of_presented hfmt hmap hpresented
  have hconvert : convertEntry fmt map e = some a := by
    rw [convertEntry, hmade]
    rfl
  obtain ⟨hcounted, hsized⟩ := nameValueToAvp_sized hmade
  refine ⟨a, hconvert, hcounted, vendor_of_made (made_of_nameValueToAvp hmade),
    name_of_convertEntry hmap.byName hnamed hconvert, fun harrives => hshown ?_⟩
  rw [← hsized]
  exact harrives.fits

/-- All AVPs of a posted body come from such entries. -/
theorem exists_entry (hfmt : fmt.ReadsBack) (hmap : map.Bijective) (hbody : PostedBody fmt map obj)
    {e : String × Json} (he : e ∈ bodyEntries obj) (hconvert : convertEntry fmt map e = some a) :
    a.ArrivesAs fmt map e := by
  have hrequest : e.1 ≠ "request" := by
    obtain ⟨name, value⟩ := e
    rintro rfl
    rw [convertEntry_request hmap] at hconvert
    cases hconvert
  obtain ⟨a', hconvert', harrives⟩ := arrivesAs_of_entry hfmt hmap hbody he hrequest
  exact Option.some.inj (hconvert'.symm.trans hconvert) ▸ harrives

theorem arrivesAs_of_mem (hfmt : fmt.ReadsBack) (hmap : map.Bijective)
    (hbody : PostedBody fmt map obj)
    (h : Command.fromJsonValue fmt commandMap map (.object obj) = some (.ok c)) :
    ∀ a ∈ c.avps, ∃ e, a.ArrivesAs fmt map e := by
  intro a ha
  rw [(fromJsonValue_avps h).mem_iff, flatMap_memberAvps] at ha
  obtain ⟨e, he, hconvert⟩ := List.mem_filterMap.mp ha
  exact ⟨e, exists_entry hfmt hmap hbody he hconvert⟩

/-- The values of a body under a name, one by one. -/
def valuesUnder (obj : List (String × Json)) (name : String) : List Json :=
  ((Json.get obj name).map Json.items).getD []

/-- Under a name the AVPs arrive as the values of the body, in their order. -/
theorem values_of_fromJsonValue (hfmt : fmt.ReadsBack) (hmap : map.Bijective)
    (hbody : PostedBody fmt map obj) (hd : Command.getCommandDefine fmt obj commandMap = some d)
    (h : Command.fromJsonValue fmt commandMap map (.object obj) = some (.ok c))
    (hname : name ∉ reservedNames) :
    List.Forall₂ (fun a v => a.ArrivesAs fmt map (name, v)) (c.avps.filter (·.name map = some name))
      (valuesUnder obj name) := by
  rw [reservedNames, List.mem_cons, not_or] at hname
  have hnames : ∀ e ∈ bodyEntries obj, ∀ a, convertEntry fmt map e = some a →
      a.name map = some e.1 := fun e he a hconvert =>
    (exists_entry hfmt hmap hbody he hconvert).name
  rw [avps_of_fromJsonValue hd h, filter_sortAvps, bodyAvps,
    filter_filterMap_convertEntry hnames, valuesUnder, ← values_bodyEntries hbody.nodup hname.2]
  have hentries : ∀ e ∈ (bodyEntries obj).filter (·.1 = name), ∃ a,
      convertEntry fmt map e = some a ∧ a.ArrivesAs fmt map (name, e.2) := by
    intro e he
    obtain ⟨hentry, heq⟩ := List.mem_filter.mp he
    obtain rfl : e.1 = name := by simpa using heq
    exact arrivesAs_of_entry hfmt hmap hbody hentry hname.1
  obtain ⟨as, has⟩ := OrPanic.exists_forall₂ hentries
  have hconverts : ((bodyEntries obj).filter (·.1 = name)).filterMap (convertEntry fmt map) = as := by
    clear hnames hentries
    generalize (bodyEntries obj).filter (·.1 = name) = entries at has
    induction has with
    | nil => rfl
    | cons he _ ih => rw [List.filterMap_cons, he.1, ih]
  rw [hconverts, List.forall₂_map_right_iff]
  exact List.Forall₂.flip (has.imp fun _ _ he => he.2)

/-- A receiver is shown the AVPs of each name as they arrive. -/
theorem toJson_received (hmap : map.Bijective) (havps : ∀ a ∈ c.avps, ∃ p, a.ArrivesAs fmt map p)
    (hsize : c.encode.length < 2 ^ 24) (commandMap : CommandMap) :
    ∃ members, c.received.toJson fmt.toFormats commandMap map = some (.object members) ∧
      (∀ name ∉ headerKeys, ∀ values, List.Forall₂ (fun a v => a.ArrivesAs fmt map (name, v))
        (c.avps.filter (·.name map = some name)) values →
          Json.get members name = Json.gather values) ∧
      ∀ field ∈ headerFields c, Json.get members field.1 = some field.2 := by
  have harrives : ∀ a ∈ c.avps, Arrives a := fun a ha => by
    obtain ⟨p, hp⟩ := havps a ha
    exact arrives_of_mem hp.counted hp.vendor hsize ha
  obtain ⟨all, hall⟩ := OrPanic.exists_forall₂ havps
  replace hall := (List.forall₂_and_left _ _).mpr ⟨harrives, hall⟩
  have hshown : List.Forall₂ (fun a p => avpToNameValue fmt.toFormats map a = some (some p))
      c.received.avps all := by
    rw [Command.received, List.forall₂_map_left_iff]
    exact hall.imp fun a p hp => hp.2.shown hp.1
  obtain ⟨members, hjson, hentries, hfields⟩ :=
    toJson_of_shown commandMap hmap.sparesHeader hshown
  refine ⟨members, hjson, fun name hname values hvalues => ?_, hfields⟩
  rw [hentries name hname]
  congr 1
  -- the entries of one name are those of the AVPs of that name
  have hfiltered : List.Forall₂ (fun a p => Arrives a ∧ a.ArrivesAs fmt map p)
      (c.avps.filter (·.name map = some name)) (all.filter (·.1 = name)) :=
    OrPanic.forall₂_filter (fun a p hp => by simp [hp.2.name]) hall
  have hall' : List.Forall₂ (fun a v => avpToNameValue fmt.toFormats map a.received =
      some (some (name, v))) (c.avps.filter (·.name map = some name))
      ((all.filter (·.1 = name)).map Prod.snd) := by
    rw [List.forall₂_map_right_iff]
    refine ((List.forall₂_and_left _ _).mpr ⟨fun a ha => (List.mem_filter.mp ha).2,
      hfiltered⟩).imp fun a p hp => ?_
    obtain ⟨hname, harrives, hp⟩ := hp
    have heq : p.1 = name := Option.some.inj (hp.name.symm.trans (of_decide_eq_true hname))
    exact heq ▸ hp.shown harrives
  have hvalues' : List.Forall₂ (fun a v => avpToNameValue fmt.toFormats map a.received =
      some (some (name, v))) (c.avps.filter (·.name map = some name)) values :=
    ((List.forall₂_and_left _ _).mpr ⟨fun a ha => harrives a (List.mem_filter.mp ha).1,
      hvalues⟩).imp fun a v hv => hv.2.shown hv.1
  refine List.right_unique_forall₂' (fun a v w hv hw => ?_) hall' hvalues'
  simpa using hv.symm.trans hw

theorem PostedBody.gather_values (hbody : PostedBody fmt map obj) (hname : name ∉ reservedNames) :
    Json.gather (valuesUnder obj name) = Json.get obj name := by
  rw [valuesUnder]
  cases hget : Json.get obj name with
  | none => rfl
  | some v => exact (hbody.entries _ ((Json.get_eq_some_iff hbody.nodup).mp hget) hname).gathered

theorem not_mem_headerKeys (hname : name ∉ reservedNames) : name ∉ headerKeys := by
  intro hmem
  refine hname ?_
  simp only [headerKeys, reservedNames, headerNames, List.mem_cons, List.not_mem_nil, or_false]
    at hmem ⊢
  tauto

/-- A posted body makes a command. -/
theorem exists_command (hfmt : fmt.ReadsBack) (hmap : map.Bijective)
    (hbody : PostedBody fmt map obj) (hd : Command.getCommandDefine fmt obj commandMap = some d) :
    ∃ c, Command.fromJsonValue fmt commandMap map (.object obj) = some (.ok c) := by
  refine (fromJsonValue_ok_iff hd).mpr fun m hm hnot item hitem => ?_
  rw [← nameValueToAvp_settles.isSome_iff]
  by_cases hrequest : m.1 = "request"
  · cases hnamed : map.getByName m.1 with
    | none =>
      rw [nameValueToAvp_of_unknown hnamed]
      rfl
    | some named => exact absurd (hrequest ▸ List.mem_cons_self) (hmap.notReserved _ _ hnamed)
  · have hentry := hbody.entries m hm fun hmem => (List.mem_cons.mp hmem).elim hrequest hnot
    obtain ⟨a, ha, -⟩ := shown_of_presented hfmt hmap (hentry.presented item hitem)
    rw [ha]
    rfl

end

/-- **A posted body over the wire.** A body of presented values makes a command, and if the
command fits its length field, a peer that decodes it is shown the AVPs of the body: the same
value, or array of values, under each name, be it there or not. The header is that of the
command. -/
theorem body_shown_by_peer {fmt : TextFormats} {commandMap : CommandMap} {map : AvpMap}
    {obj : List (String × Json)} {d : CommandJson} (hfmt : fmt.ReadsBack) (hmap : map.Bijective)
    (hbody : PostedBody fmt map obj) (hd : Command.getCommandDefine fmt obj commandMap = some d)
    (hcode : d.code.toNat < 2 ^ 24) :
    ∃ c, Command.fromJsonValue fmt commandMap map (.object obj) = some (.ok c) ∧ c.code = d.code ∧
      (c.encode.length < 2 ^ 24 → ∀ peerMap : CommandMap, ∃ c' members,
        Command.decode c.encode = .ok c' ∧
        c'.toJson fmt.toFormats peerMap map = some (.object members) ∧
        (∀ name ∉ reservedNames, Json.get members name = Json.get obj name) ∧
        ∀ field ∈ headerFields c, Json.get members field.1 = some field.2) := by
  obtain ⟨c, hc⟩ := exists_command hfmt hmap hbody hd
  have hsame := code_fromJsonValue hd hc
  refine ⟨c, hc, hsame, fun hsize peerMap => ?_⟩
  have havps := arrivesAs_of_mem hfmt hmap hbody hc
  have hdecode := (decode_encode_received_command (hsame ▸ hcode) (fun a ha => by
    obtain ⟨p, hp⟩ := havps a ha
    exact arrives_of_mem hp.counted hp.vendor hsize ha) hsize).2
  obtain ⟨members, hjson, hentries, hfields⟩ := toJson_received hmap havps hsize peerMap
  refine ⟨c.received, members, hdecode, hjson, fun name hname => ?_, hfields⟩
  rw [hentries name (not_mem_headerKeys hname) _
    (values_of_fromJsonValue hfmt hmap hbody hd hc hname), hbody.gather_values hname]

/-- A body with a group, and two values of one name. -/
def failedBody : List (String × Json) :=
  [("Failed-AVP", .object [("Result-Code", .ofInt 5001), ("User-Name", .string "bob")]),
    ("Route-Record", .array [.string "a", .string "b"]), ("code", .ofInt 271),
    ("request", .bool true)]

theorem postedBody_failedBody : PostedBody (standardTexts true) (.new []) failedBody := by
  have hcode : (AvpMap.new []).getByName "Result-Code" =
      some ⟨"Result-Code", 268, .unsigned32, true, none⟩ := rfl
  have huser : (AvpMap.new []).getByName "User-Name" =
      some ⟨"User-Name", 1, .utf8String, true, none⟩ := rfl
  have hgroup : (AvpMap.new []).getByName "Failed-AVP" =
      some ⟨"Failed-AVP", 279, .grouped, true, none⟩ := rfl
  have hroute : (AvpMap.new []).getByName "Route-Record" =
      some ⟨"Route-Record", 282, .diameterIdentity, true, none⟩ := rfl
  have hrange : AvpType.unsigned32.InRange 5001 :=
    (by decide : (0 : Int) ≤ 5001 ∧ (5001 : Int) < 2 ^ 32)
  refine ⟨by decide, fun m hm hname => ?_⟩
  simp only [failedBody, List.mem_cons, List.not_mem_nil, or_false] at hm
  rcases hm with rfl | rfl | rfl | rfl
  · refine ⟨fun item hitem => ?_, rfl⟩
    obtain rfl := List.mem_singleton.mp hitem
    refine .group hgroup rfl (by simp) (by decide) fun m hm => ?_
    simp only [List.mem_cons, List.not_mem_nil, or_false] at hm
    rcases hm with rfl | rfl
    · exact .scalar hcode hrange
    · exact .scalar huser trivial
  · refine ⟨fun item hitem => ?_, rfl⟩
    have htext : item = .string "a" ∨ item = .string "b" := by simpa [Json.items] using hitem
    rcases htext with rfl | rfl <;> exact .scalar hroute trivial
  · exact absurd (by simp [reservedNames, headerNames]) hname
  · exact absurd (by simp [reservedNames]) hname

/-- Its group and its two values arrive. -/
theorem body_shown_by_peer_failedBody :
    ∃ c, Command.fromJsonValue (standardTexts true) (.new (standardTexts true).toLowercase []) (.new [])
        (.object failedBody) = some (.ok c) ∧ c.code = 271 ∧
      (c.encode.length < 2 ^ 24 → ∀ peerMap : CommandMap, ∃ c' members,
        Command.decode c.encode = .ok c' ∧
        c'.toJson (standardTexts true).toFormats peerMap (.new []) = some (.object members) ∧
        (∀ name ∉ reservedNames, Json.get members name = Json.get failedBody name) ∧
        ∀ field ∈ headerFields c, Json.get members field.1 = some field.2) := by
  have hd : Command.getCommandDefine (standardTexts true) failedBody
      (.new (standardTexts true).toLowercase []) = some standardCommands[2] := rfl
  exact body_shown_by_peer (lawful_standardTexts true).toReadsBack bijective_standard
    postedBody_failedBody hd (by decide)

end RestDiameterBridge
