import RestDiameterBridge.CommandCodec
import RestDiameterBridge.Dictionary
import RestDiameterBridge.Lib.Json
import RestDiameterBridge.Lib.OrPanic

/-!
# RestDiameterBridge.CommandJson

The JSON form of a command (`avp_to_name_value` in `src/avp.rs`, `Command::to_json` in
`src/command.rs`). A group is expanded by reading its data as AVPs.

At the top level values of one name are collected in an array, so none is lost
(`toJson_collects`). Inside a group a member overwrites the member of the same name
before it; `lossless_iff` says for which commands that loses nothing.
-/

namespace RestDiameterBridge

open Bytes

/-- The texts made outside the repository, and whether the build checks arithmetic for
overflow. -/
structure Formats where
  base64 : List UInt8 → String
  ipv4 : List UInt8 → String
  ipv6 : List UInt8 → String
  overflowChecks : Bool

namespace Avp

/-! ### Typed access -/

/-- The data as a number of `n` bytes, if it is exactly that long. -/
def asNumber (a : Avp) (n : Nat) : Option Nat :=
  match a.data with
  | some data => if data.length = n then some (beValue data) else none
  | none => none

def asInteger32 (a : Avp) : Option Int := (a.asNumber 4).map fun v => (BitVec.ofNat 32 v).toInt

def asInteger64 (a : Avp) : Option Int := (a.asNumber 8).map fun v => (BitVec.ofNat 64 v).toInt

def asUnsigned64 (a : Avp) : Option UInt64 := (a.asNumber 8).map Nat.toUInt64

def asFloat32 (a : Avp) : Option Float32 := (a.asNumber 4).map fun v => Float32.ofBits v.toUInt32

def asFloat64 (a : Avp) : Option Float := (a.asNumber 8).map fun v => Float.ofBits v.toUInt64

/-- An IPv4 address of type 1 or an IPv6 address of type 2. -/
def asAddress (fmt : Formats) (a : Avp) : Option String :=
  match a.data with
  | some data =>
      if data.length < 2 then none
      else
        let addressType := beValue (data.take 2)
        if addressType = 1 ∧ data.length = 6 then some (fmt.ipv4 (data.drop 2))
        else if addressType = 2 ∧ data.length = 18 then some (fmt.ipv6 (data.drop 2))
        else none
  | none => none

/-- Seconds since 1970, from seconds since 1900. -/
def asTime (fmt : Formats) (a : Avp) : OrPanic (Option UInt32) :=
  match a.asUnsigned32 with
  | some ntpTime =>
      if fmt.overflowChecks && ntpTime < 2208988800 then none
      else some (some (ntpTime - 2208988800))
  | none => some none

/-- The members of a group. The loop over its data is that of `Command::decode`, without
a header in front. -/
def asGrouped (a : Avp) : Option (List Avp) :=
  match a.data with
  | some data =>
      if 8 ≤ data.length then (Command.decodeAvps data data.length 0 []).toOption
      else none
  | none => if a.isGrouped then some a.subAvps else none

mutual
/-- Bytes and members below an AVP. -/
def weight : Avp → Nat
  | ⟨_, _, _, data, subAvps⟩ => (data.getD []).length + 1 + weightSum subAvps
/-- The weights of several AVPs. -/
def weightSum : List Avp → Nat
  | [] => 0
  | a :: as => a.weight + weightSum as
end

theorem weight_le_weightSum {a : Avp} {as : List Avp} (h : a ∈ as) : a.weight ≤ weightSum as := by
  induction as with
  | nil => cases h
  | cons b as ih =>
    rw [weightSum]
    rcases List.mem_cons.mp h with rfl | h
    · omega
    · have := ih h
      omega

/-- A decoded AVP is lighter than the data it was read from. -/
theorem weight_le_of_decode {data : List UInt8} {a : Avp} (h : decode data = .ok a) :
    a.weight < data.length := by
  obtain ⟨hdata, -, htot, hle, -⟩ := decode_ok h
  have hsub : a.subAvps = [] := by
    unfold decode at h
    split at h
    · split at h
      · cases h
      · rw [← Except.ok.inj h]
        rfl
    · cases h
  have hheader := le_headerLength a.flags
  have hweight : a.weight = (a.data.getD []).length + 1 + weightSum a.subAvps := by
    cases a
    rfl
  rw [hweight, hdata, hsub, Option.getD_some, weightSum]
  omega

end Avp

/-- What holds of every AVP that can be decoded holds of all AVPs of the loop. -/
theorem Command.forall_decodeAvps {P : Avp → Prop} {data : List UInt8} {length offset : Nat}
    {avps r : List Avp} (h : decodeAvps data length offset avps = .ok r)
    (hP : ∀ offset a, Avp.decode (data.drop offset) = .ok a → P a) (havps : ∀ a ∈ avps, P a) :
    ∀ a ∈ r, P a := by
  induction hn : length - offset using Nat.strongRecOn generalizing offset avps with
  | ind n ih =>
    by_cases hle : offset + 8 ≤ length
    · cases hd : Avp.decode (data.drop offset) with
      | ok a =>
        rw [decodeAvps_of_ok hle hd] at h
        have := Avp.le_totalLengthIncludingPadding hd
        refine ih _ (by omega) h ?_ rfl
        intro b hb
        rcases List.mem_append.mp hb with hb | hb
        · exact havps b hb
        · rw [List.mem_singleton.mp hb]
          exact hP offset a hd
      | error e =>
        rw [decodeAvps_of_error hle hd] at h
        cases h
    · rw [decodeAvps_of_lt (by omega)] at h
      rw [← Except.ok.inj h]
      exact havps

/-- The members of a group are lighter than the group. -/
theorem Avp.weight_lt_of_asGrouped {a : Avp} {members : List Avp}
    (h : a.asGrouped = some members) : ∀ m ∈ members, m.weight < a.weight := by
  obtain ⟨code, flags, vendorId, data, subAvps⟩ := a
  cases data with
  | some data =>
    simp only [asGrouped] at h
    split at h
    · cases hd : Command.decodeAvps data data.length 0 [] with
      | error e =>
        rw [hd] at h
        cases h
      | ok r =>
        rw [hd] at h
        obtain rfl := Option.some.inj h
        -- members decoded from the payload lie inside it
        refine Command.forall_decodeAvps hd (fun offset m hm => ?_) (by simp)
        have hlt := weight_le_of_decode hm
        rw [List.length_drop] at hlt
        simp only [weight, Option.getD_some]
        omega
    · cases h
  | none =>
    simp only [asGrouped] at h
    split at h
    · obtain rfl := Option.some.inj h
      intro m hm
      have := weight_le_weightSum hm
      simp only [weight, Option.getD_none, List.length_nil]
      omega
    · cases h

/-! ### Conversion -/

/-- The JSON value of an AVP of a type other than `Grouped`, if it has one. -/
def scalarToValue (fmt : Formats) (avpType : AvpType) (avp : Avp) : OrPanic (Option Json) :=
  match avpType with
  | .octetString => avp.data.map fun data => some (.string (fmt.base64 data))
  | .address => some ((avp.asAddress fmt).map .string)
  | .time => (avp.asTime fmt).map (·.map fun v => .ofInt v.toNat)
  | .utf8String | .diameterIdentity | .diameterUri | .ipFilterRule =>
      avp.data.map fun data => (String.fromUTF8? ⟨data.toArray⟩).map .string
  | .integer32 | .enumerated => some (some (.ofOption (avp.asInteger32.map .ofInt)))
  | .unsigned32 => some (some (.ofOption (avp.asUnsigned32.map fun v => .ofInt v.toNat)))
  | .integer64 => some (some (.ofOption (avp.asInteger64.map .ofInt)))
  | .unsigned64 => some (some (.ofOption (avp.asUnsigned64.map fun v => .ofInt v.toNat)))
  | .float32 => some (some (.ofOption (avp.asFloat32.map fun v => .ofFloat v.toFloat)))
  | .float64 => some (some (.ofOption (avp.asFloat64.map .ofFloat)))
  | .grouped => some none

mutual
/-- The JSON name and value of an AVP, if it has one. An unknown code is shown under a
generic name. -/
def avpToNameValue (fmt : Formats) (map : AvpMap) (avp : Avp) :
    OrPanic (Option (String × Json)) :=
  match map.getByCode avp.code with
  | some named =>
      if named.avpType = .grouped then
        match _h : avp.asGrouped with
        | some groupedAvp =>
            (insertMembers fmt map avp.weight groupedAvp (Avp.weight_lt_of_asGrouped _h) []).map
              fun subAvpsJson => some (named.name, .object subAvpsJson)
        | none => some none
      else (scalarToValue fmt named.avpType avp).map (·.map fun value => (named.name, value))
  | none =>
      avp.data.map fun data => some (s!"AVP-{avp.code}", .string (fmt.base64 data))
termination_by (avp.weight + 1, 0)
decreasing_by exact .left _ _ (Nat.lt_succ_self _)
/-- The loop over the members of a group, which are lighter than `n`: each that has a
JSON value is inserted under its name. -/
def insertMembers (fmt : Formats) (map : AvpMap) (n : Nat) (groupedAvp : List Avp)
    (hn : ∀ m ∈ groupedAvp, m.weight < n) (subAvpsJson : List (String × Json)) :
    OrPanic (List (String × Json)) :=
  match groupedAvp, hn with
  | [], _ => some subAvpsJson
  | subAvp :: rest, hn =>
      match avpToNameValue fmt map subAvp with
      | none => none
      | some none =>
          insertMembers fmt map n rest (fun m hm => hn m (List.mem_cons_of_mem _ hm)) subAvpsJson
      | some (some (subName, subValue)) =>
          insertMembers fmt map n rest (fun m hm => hn m (List.mem_cons_of_mem _ hm))
            (Json.insert subAvpsJson subName subValue)
termination_by (n, groupedAvp.length)
decreasing_by
  · rcases Nat.lt_or_eq_of_le (hn subAvp List.mem_cons_self) with hlt | heq
    · exact .left _ _ hlt
    · exact heq ▸ .right _ (Nat.succ_pos _)
  · exact .right _ (Nat.lt_succ_self _)
  · exact .right _ (Nat.lt_succ_self _)
end

/-- A command definition. -/
structure CommandJson where
  longName : String
  shortName : String
  code : UInt32
  applicationId : UInt32
  request : Bool
  proxiable : Bool
  error : Bool
  avps : List String
  deriving Repr, DecidableEq

/-- The command definitions by code, and by lower-case name. -/
structure CommandMap where
  codeToCommand : AList fun _ : UInt32 => List CommandJson
  nameToCommand : AList fun _ : String => CommandJson

/-- The first definition with the code and the kind. -/
def CommandMap.getByCode (map : CommandMap) (code : UInt32) (request : Bool) :
    Option CommandJson :=
  (map.codeToCommand.lookup code).bind fun commands => commands.find? (·.request = request)

/-- The letters of the set flags. -/
def strFromU8 (value : UInt8) : String :=
  (if value &&& 0x80 != 0 then "R" else "") ++ (if value &&& 0x40 != 0 then "P" else "") ++
    (if value &&& 0x20 != 0 then "E" else "") ++ (if value &&& 0x10 != 0 then "T" else "")

namespace Command

/-- The members for the header fields. -/
def headerJson (commandMap : CommandMap) (c : Command) : List (String × Json) :=
  let r := match commandMap.getByCode c.code c.isRequest with
    | some commandDefine => Json.insert [] "name" (.string commandDefine.longName)
    | none => []
  Json.insertAll r
    [("code", .ofInt c.code.toNat), ("application_id", .ofInt c.applicationId.toNat),
      ("hop_by_hop_id", .ofInt c.hopByHopId.toNat), ("end_to_end_id", .ofInt c.endToEndId.toNat),
      ("flags", .string (strFromU8 c.flags))]

/-- The name and value of a top-level AVP. One without a JSON value is only mentioned. -/
def avpJson (fmt : Formats) (avpMap : AvpMap) (avp : Avp) : OrPanic (String × Json) :=
  (avpToNameValue fmt avpMap avp).map fun nameValue =>
    nameValue.getD (s!"Unknown-AVP-{avp.code}", .string "Unknown")

/-- The command as a JSON object: its header fields, and its AVPs by name. -/
def toJson (fmt : Formats) (commandMap : CommandMap) (avpMap : AvpMap) (c : Command) :
    OrPanic Json :=
  (c.avps.mapM (avpJson fmt avpMap)).map fun avpsJson =>
    .object (Json.collectAll (c.headerJson commandMap) avpsJson)

end Command

/-! ### The values are never arrays -/

section
variable {fmt : Formats} {map : AvpMap} {avp : Avp} {name : String} {value : Json}

theorem isArray_scalarToValue {avpType : AvpType}
    (h : scalarToValue fmt avpType avp = some (some value)) : value.isArray = false := by
  unfold scalarToValue at h
  split at h
  case h_1 =>
    obtain ⟨_, _, heq⟩ := Option.map_eq_some_iff.mp h
    rw [← Option.some.inj heq]
    rfl
  case h_2 =>
    obtain ⟨_, _, rfl⟩ := Option.map_eq_some_iff.mp (Option.some.inj h)
    rfl
  case h_3 =>
    obtain ⟨_, _, heq⟩ := Option.map_eq_some_iff.mp h
    obtain ⟨_, _, rfl⟩ := Option.map_eq_some_iff.mp heq
    rfl
  case h_4 | h_5 | h_6 | h_7 =>
    obtain ⟨_, _, heq⟩ := Option.map_eq_some_iff.mp h
    obtain ⟨_, _, rfl⟩ := Option.map_eq_some_iff.mp heq
    rfl
  case h_15 => cases h
  all_goals
    rw [← Option.some.inj (Option.some.inj h)]
    exact Json.isArray_ofOption fun _ => by simp

/-- An AVP of a type other than `Grouped` is shown under its name. -/
theorem avpToNameValue_of_scalar {named : AvpJson} (hnamed : map.getByCode avp.code = some named)
    (htype : named.avpType ≠ .grouped) :
    avpToNameValue fmt map avp =
      (scalarToValue fmt named.avpType avp).map (·.map fun value => (named.name, value)) := by
  rw [avpToNameValue, hnamed]
  dsimp only
  rw [if_neg htype]

/-- An AVP of an unknown code is shown under a generic name. -/
theorem avpToNameValue_of_unknown (hnone : map.getByCode avp.code = none) :
    avpToNameValue fmt map avp =
      avp.data.map fun data => some (s!"AVP-{avp.code}", .string (fmt.base64 data)) := by
  rw [avpToNameValue, hnone]

/-- A group is shown as the object of its members. -/
theorem avpToNameValue_of_grouped {named : AvpJson} (hnamed : map.getByCode avp.code = some named)
    (htype : named.avpType = .grouped) {members : List Avp}
    (hmembers : avp.asGrouped = some members) :
    avpToNameValue fmt map avp =
      (insertMembers fmt map avp.weight members (Avp.weight_lt_of_asGrouped hmembers) []).map
        fun subAvpsJson => some (named.name, .object subAvpsJson) := by
  rw [avpToNameValue, hnamed]
  dsimp only
  rw [if_pos htype]
  split
  · rename_i members' h'
    obtain rfl := Option.some.inj (hmembers.symm.trans h')
    rfl
  · rename_i hnone
    rw [hmembers] at hnone
    cases hnone

theorem avpToNameValue_of_not_grouped {named : AvpJson}
    (hnamed : map.getByCode avp.code = some named) (htype : named.avpType = .grouped)
    (hmembers : avp.asGrouped = none) : avpToNameValue fmt map avp = some none := by
  rw [avpToNameValue, hnamed]
  dsimp only
  rw [if_pos htype]
  split
  · simp_all
  · rfl

/-- The name a conversion yields is that of the code; the value is no array. -/
theorem avpToNameValue_some (h : avpToNameValue fmt map avp = some (some (name, value))) :
    name = map.jsonName avp.code ∧ value.isArray = false := by
  cases hnamed : map.getByCode avp.code with
  | none =>
    rw [avpToNameValue_of_unknown hnamed] at h
    obtain ⟨_, _, heq⟩ := Option.map_eq_some_iff.mp h
    obtain ⟨rfl, rfl⟩ := Prod.mk.inj (Option.some.inj heq)
    exact ⟨by rw [AvpMap.jsonName, hnamed], rfl⟩
  | some named =>
    have hname : map.jsonName avp.code = named.name := by rw [AvpMap.jsonName, hnamed]
    by_cases htype : named.avpType = .grouped
    · cases hmembers : avp.asGrouped with
      | none =>
        rw [avpToNameValue_of_not_grouped hnamed htype hmembers] at h
        cases h
      | some members =>
        rw [avpToNameValue_of_grouped hnamed htype hmembers] at h
        obtain ⟨_, _, heq⟩ := Option.map_eq_some_iff.mp h
        obtain ⟨rfl, rfl⟩ := Prod.mk.inj (Option.some.inj heq)
        exact ⟨hname.symm, rfl⟩
    · rw [avpToNameValue_of_scalar hnamed htype] at h
      obtain ⟨r, hr, heq⟩ := Option.map_eq_some_iff.mp h
      obtain ⟨v, rfl, hv⟩ := Option.map_eq_some_iff.mp heq
      obtain ⟨rfl, rfl⟩ := Prod.mk.inj hv
      exact ⟨hname.symm, isArray_scalarToValue hr⟩

/-- If all members convert, the object of the group is made of their conversions. -/
theorem insertMembers_of_converts {n : Nat} {members : List Avp}
    (hn : ∀ m ∈ members, m.weight < n) {conversions subAvpsJson : List (String × Json)}
    (h : List.Forall₂ (fun m p => avpToNameValue fmt map m = some (some p)) members conversions) :
    insertMembers fmt map n members hn subAvpsJson =
      some (Json.insertAll subAvpsJson conversions) := by
  induction h generalizing subAvpsJson with
  | nil => rw [insertMembers]; rfl
  | cons hm _ ih =>
    rw [insertMembers, hm]
    exact ih _

end

/-! ### What is lost -/

/-- The AVP is one of the given ones, or a member of a group among them, at any depth. -/
inductive Occurs (map : AvpMap) (avps : List Avp) : Avp → Prop
  | top {a : Avp} : a ∈ avps → Occurs map avps a
  | inside {g a : Avp} {named : AvpJson} {members : List Avp} :
      Occurs map avps g → map.getByCode g.code = some named → named.avpType = .grouped →
      g.asGrouped = some members → a ∈ members → Occurs map avps a

/-- A group with all its members, each of which has a JSON value. -/
structure ConvertibleGroup (fmt : Formats) (map : AvpMap) (g : Avp) (members : List Avp) :
    Prop where
  grouped : ∃ named, map.getByCode g.code = some named ∧ named.avpType = .grouped
  asGrouped : g.asGrouped = some members
  converts : ∀ m ∈ members, ∃ p, avpToNameValue fmt map m = some (some p)

/-- The value of each member has a slot of its own in the JSON of the group. -/
def KeepsMembers (fmt : Formats) (map : AvpMap) (g : Avp) (members : List Avp) : Prop :=
  ∃ name subAvpsJson conversions,
    avpToNameValue fmt map g = some (some (name, .object subAvpsJson)) ∧
      List.Forall₂ (fun m p => avpToNameValue fmt map m = some (some p)) members conversions ∧
      conversions.Subperm (Json.slots subAvpsJson)

/-- No AVP is lost in the JSON of the command: each top-level AVP has its own slot in the
object, and so has each member of a group all of whose members convert, at any depth. -/
structure Lossless (fmt : Formats) (commandMap : CommandMap) (map : AvpMap) (c : Command) :
    Prop where
  top : ∀ json, c.toJson fmt commandMap map = some json →
    ∃ members values, json = .object members ∧
      List.Forall₂ (fun a p => Command.avpJson fmt map a = some p) c.avps values ∧
      values.Subperm (Json.slots members)
  groups : ∀ g members, Occurs map c.avps g → ConvertibleGroup fmt map g members →
    KeepsMembers fmt map g members

section
variable {fmt : Formats} {commandMap : CommandMap} {map : AvpMap} {c : Command}

/-- A group keeps all members exactly if their names are distinct. -/
theorem keepsMembers_iff {g : Avp} {members : List Avp} (h : ConvertibleGroup fmt map g members) :
    KeepsMembers fmt map g members ↔ (members.map fun m => map.jsonName m.code).Nodup := by
  obtain ⟨⟨named, hnamed, htype⟩, hmembers, hconverts⟩ := h
  obtain ⟨conversions, hconv⟩ := OrPanic.exists_forall₂ hconverts
  have hnames : (members.map fun m => map.jsonName m.code) = conversions.map Prod.fst := by
    rw [← List.forall₂_eq_eq_eq, List.forall₂_map_left_iff, List.forall₂_map_right_iff]
    exact hconv.imp fun m p hp => (avpToNameValue_some hp).1.symm
  have harray : ∀ p ∈ conversions, p.2.isArray = false :=
    OrPanic.forall_mem_of_forall₂ hconv fun m p hp => (avpToNameValue_some hp).2
  have hgroup : avpToNameValue fmt map g =
      some (some (named.name, .object (Json.insertAll [] conversions))) := by
    rw [avpToNameValue_of_grouped hnamed htype hmembers, insertMembers_of_converts _ hconv]
    rfl
  rw [hnames, ← Json.insertAll_subperm_iff harray]
  constructor
  · intro hexists
    obtain ⟨name, obj, conversions', hg, hconv', hsub⟩ := hexists
    obtain ⟨-, hobj⟩ := Prod.mk.inj (Option.some.inj (Option.some.inj (hgroup.symm.trans hg)))
    have hunique : conversions' = conversions :=
      List.right_unique_forall₂' (fun m p q hp hq => by simpa using hp.symm.trans hq) hconv' hconv
    rw [hunique, ← Json.object.inj hobj] at hsub
    exact hsub
  · intro hsub
    exact ⟨_, _, conversions, hgroup, hconv, hsub⟩

theorem isArray_avpJson {a : Avp} {p : String × Json} (h : Command.avpJson fmt map a = some p) :
    p.2.isArray = false := by
  obtain ⟨r, hr, rfl⟩ := Option.map_eq_some_iff.mp h
  cases r with
  | none => rfl
  | some p => exact (avpToNameValue_some hr).2

theorem nodup_headerJson (commandMap : CommandMap) (c : Command) :
    ((c.headerJson commandMap).map Prod.fst).Nodup := by
  unfold Command.headerJson
  split
  · exact Json.nodup_insertAll (Json.nodup_insert List.nodup_nil)
  · exact Json.nodup_insertAll List.nodup_nil

/-- At the top level every AVP has its own slot. -/
theorem toJson_collects {json : Json} (h : c.toJson fmt commandMap map = some json) :
    ∃ members values, json = .object members ∧
      List.Forall₂ (fun a p => Command.avpJson fmt map a = some p) c.avps values ∧
      values.Subperm (Json.slots members) := by
  obtain ⟨values, hvalues, rfl⟩ := Option.map_eq_some_iff.mp h
  have hconv := OrPanic.mapM_eq_some_iff.mp hvalues
  refine ⟨_, values, rfl, hconv, ?_⟩
  have hperm := Json.slots_collectAll (nodup_headerJson commandMap c)
    (OrPanic.forall_mem_of_forall₂ hconv fun a p hp => isArray_avpJson hp)
  exact (List.sublist_append_right _ values).subperm.trans hperm.symm.subperm

end

/-- **Which commands lose nothing in JSON.** No AVP of a command is lost exactly if in
every group, at any depth, all of whose members convert, the names of the members are
pairwise distinct. -/
theorem lossless_iff (fmt : Formats) (commandMap : CommandMap) (map : AvpMap) (c : Command) :
    Lossless fmt commandMap map c ↔
      ∀ g members, Occurs map c.avps g → ConvertibleGroup fmt map g members →
        (members.map fun m => map.jsonName m.code).Nodup := by
  constructor
  · intro h g members hoccurs hgroup
    exact (keepsMembers_iff hgroup).mp (h.groups g members hoccurs hgroup)
  · intro h
    refine ⟨fun json hjson => toJson_collects hjson, fun g members hoccurs hgroup => ?_⟩
    exact (keepsMembers_iff hgroup).mpr (h g members hoccurs hgroup)

/-! ### A group with a repeated member -/

/-- A Result-Code AVP. -/
def resultCodeAvp : Avp := ⟨268, 0x40, none, some [0, 0, 7, 209], []⟩

/-- A Failed-AVP holding the same AVP twice. -/
def failedAvpTwice : Avp := ⟨279, 0x40, none, some (resultCodeAvp.encode ++ resultCodeAvp.encode), []⟩

/-- An answer with that group. -/
def failedAnswer : Command :=
  { code := 272, flags := 0x40, applicationId := 4, hopByHopId := 1, endToEndId := 1
    avps := [failedAvpTwice] }

theorem decode_failedAnswer : Command.decode failedAnswer.encode = .ok failedAnswer := by
  have hwf : failedAnswer.WellFormed := by
    refine ⟨by decide, fun a ha => ?_, by decide⟩
    rw [List.mem_singleton.mp ha]
    exact .scalar rfl
  exact Command.decode_encode hwf

theorem asGrouped_failedAvpTwice :
    failedAvpTwice.asGrouped = some [resultCodeAvp, resultCodeAvp] := by
  let data := resultCodeAvp.encode ++ resultCodeAvp.encode
  have hlength : resultCodeAvp.encode.length = 12 := by decide
  have hdecode : ∀ rest, Avp.decode (resultCodeAvp.encode ++ rest) = .ok resultCodeAvp :=
    Avp.decode_encode (.scalar rfl) (by decide)
  have h0 : Avp.decode (data.drop 0) = .ok resultCodeAvp := hdecode _
  have h12 : Avp.decode (data.drop 12) = .ok resultCodeAvp := by
    rw [List.drop_left' hlength, ← List.append_nil resultCodeAvp.encode]
    exact hdecode []
  have hloop : Command.decodeAvps data 24 0 [] = .ok [resultCodeAvp, resultCodeAvp] := by
    rw [Command.decodeAvps_of_ok (by omega) h0]
    show Command.decodeAvps data 24 12 [resultCodeAvp] = _
    rw [Command.decodeAvps_of_ok (by omega) h12]
    exact Command.decodeAvps_of_lt (by decide)
  show (Command.decodeAvps data 24 0 []).toOption = _
  rw [hloop]
  rfl

/-- Of the two members of the decoded group, one is lost. -/
theorem not_lossless_failedAnswer :
    Command.decode failedAnswer.encode = .ok failedAnswer ∧
      ∀ fmt commandMap, ¬Lossless fmt commandMap (.new []) failedAnswer := by
  refine ⟨decode_failedAnswer, fun fmt commandMap h => ?_⟩
  have hgroup : ConvertibleGroup fmt (.new []) failedAvpTwice [resultCodeAvp, resultCodeAvp] := by
    refine ⟨⟨_, rfl, rfl⟩, asGrouped_failedAvpTwice, fun m hm => ?_⟩
    obtain rfl : m = resultCodeAvp := by simpa using hm
    have hnamed : (AvpMap.new []).getByCode resultCodeAvp.code =
        some ⟨"Result-Code", 268, .unsigned32, true, none⟩ := rfl
    rw [avpToNameValue_of_scalar hnamed (by decide)]
    exact ⟨_, rfl⟩
  have hkeeps := h.groups _ _ (.top (List.mem_singleton_self _)) hgroup
  rw [keepsMembers_iff hgroup] at hkeeps
  simp at hkeeps

end RestDiameterBridge
