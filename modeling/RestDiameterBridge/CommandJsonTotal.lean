import RestDiameterBridge.CommandFromJson

/-!
# RestDiameterBridge.CommandJsonTotal

When the JSON form of a command is made without a panic.

The conversion unwraps the data of octet strings, texts and unknown AVPs, and turns a
time into seconds since 1970 by a subtraction, which in a build with overflow checks must
not go below zero. `toJson_isSome_iff` says that it panics nowhere else: a command is
shown exactly if each of its AVPs, at any depth, is `Showable`.

On commands a peer has sent, only times are left to check (`jsonSafe_iff`): a decoded AVP
has data, and its lengths are exact.
-/

namespace RestDiameterBridge

open Bytes

/-- Types whose conversion to JSON unwraps the data. -/
def AvpType.unwrapsData : AvpType → Bool
  | octetString | utf8String | diameterIdentity | diameterUri | ipFilterRule => true
  | _ => false

/-- Seconds from 1900 to 1970. -/
abbrev unixEpoch : UInt32 := 2208988800

/-- A value that is a time of an AVP can be counted from 1970. -/
def Avp.TimeFits (fmt : Formats) (a : Avp) : Prop :=
  fmt.overflowChecks = true → ∀ ntpTime, a.asUnsigned32 = some ntpTime → unixEpoch ≤ ntpTime

/-- The AVP itself, leaving aside its members, is converted without a panic. -/
def Avp.Showable (fmt : Formats) (map : AvpMap) (a : Avp) : Prop :=
  match map.getByCode a.code with
  | some named =>
      (named.avpType.unwrapsData = true → a.data.isSome = true) ∧
        (named.avpType = .time → a.TimeFits fmt)
  | none => a.data.isSome = true

section
variable {fmt : Formats} {map : AvpMap} {a b : Avp} {avps members : List Avp} {named : AvpJson}

theorem asTime_isSome_iff : (a.asTime fmt).isSome ↔ a.TimeFits fmt := by
  unfold Avp.asTime Avp.TimeFits
  cases hvalue : a.asUnsigned32 with
  | none => simp
  | some ntpTime =>
    by_cases hchecks : fmt.overflowChecks = true <;> by_cases hlt : ntpTime < unixEpoch
    · simp [hchecks, hlt]
    · simp [hchecks, hlt, UInt32.not_lt.mp hlt]
    · simp [hchecks]
    · simp [hchecks]

theorem scalarToValue_isSome_iff (avpType : AvpType) :
    (scalarToValue fmt avpType a).isSome ↔
      (avpType.unwrapsData = true → a.data.isSome = true) ∧
        (avpType = .time → a.TimeFits fmt) := by
  cases avpType with
  | time => simp [scalarToValue, AvpType.unwrapsData, asTime_isSome_iff]
  | _ => simp [scalarToValue, AvpType.unwrapsData]

/-! ### AVPs at any depth -/

theorem occurs_of_mem (h : a ∈ avps) (hoccurs : Occurs map [a] b) : Occurs map avps b := by
  induction hoccurs with
  | top hmem =>
    rw [List.mem_singleton.mp hmem]
    exact .top h
  | inside _ hnamed htype hmembers hmem ih => exact .inside ih hnamed htype hmembers hmem

theorem occurs_iff_exists : Occurs map avps b ↔ ∃ a ∈ avps, Occurs map [a] b := by
  constructor
  · intro hoccurs
    induction hoccurs with
    | @top a hmem => exact ⟨a, hmem, .top (List.mem_singleton_self a)⟩
    | inside _ hnamed htype hmembers hmem ih =>
      obtain ⟨a, ha, hin⟩ := ih
      exact ⟨a, ha, .inside hin hnamed htype hmembers hmem⟩
  · intro hexists
    obtain ⟨a, ha, hin⟩ := hexists
    exact occurs_of_mem ha hin

/-- What occurs among the members of a group occurs in the group. -/
theorem occurs_of_members (hnamed : map.getByCode a.code = some named)
    (htype : named.avpType = .grouped) (hmembers : a.asGrouped = some members)
    (hoccurs : Occurs map members b) : Occurs map [a] b := by
  induction hoccurs with
  | top hmem => exact .inside (.top (List.mem_singleton_self a)) hnamed htype hmembers hmem
  | inside _ hnamed' htype' hmembers' hmem ih => exact .inside ih hnamed' htype' hmembers' hmem

/-- What occurs in an AVP is the AVP, or occurs among its members if it is a group. -/
theorem occurs_singleton (hoccurs : Occurs map [a] b) :
    b = a ∨ ∃ named members, map.getByCode a.code = some named ∧ named.avpType = .grouped ∧
      a.asGrouped = some members ∧ Occurs map members b := by
  induction hoccurs with
  | top hmem => exact .inl (List.mem_singleton.mp hmem)
  | inside _ hnamed htype hmembers hmem ih =>
    rcases ih with rfl | hin
    · exact .inr ⟨_, _, hnamed, htype, hmembers, .top hmem⟩
    · obtain ⟨named', members', hnamed', htype', hmembers', hoccurs'⟩ := hin
      exact .inr ⟨named', members', hnamed', htype', hmembers',
        .inside hoccurs' hnamed htype hmembers hmem⟩

/-- The AVP and everything in it is showable. -/
def Avp.Shows (fmt : Formats) (map : AvpMap) (a : Avp) : Prop :=
  ∀ b, Occurs map [a] b → b.Showable fmt map

theorem shows_iff :
    a.Shows fmt map ↔ a.Showable fmt map ∧
      ∀ named members, map.getByCode a.code = some named → named.avpType = .grouped →
        a.asGrouped = some members → ∀ m ∈ members, m.Shows fmt map := by
  constructor
  · intro h
    refine ⟨h a (.top (List.mem_singleton_self a)), ?_⟩
    intro named members hnamed htype hmembers m hm b hoccurs
    exact h b (occurs_of_members hnamed htype hmembers (occurs_of_mem hm hoccurs))
  · intro h b hoccurs
    rcases occurs_singleton hoccurs with rfl | hin
    · exact h.1
    · obtain ⟨named, members, hnamed, htype, hmembers, hoccurs'⟩ := hin
      obtain ⟨m, hm, hb⟩ := occurs_iff_exists.mp hoccurs'
      exact h.2 named members hnamed htype hmembers m hm b hb

/-! ### The conversion -/

/-- The members of a group are inserted without a panic if each is converted without one. -/
theorem insertMembers_isSome_iff {n : Nat} (hn : ∀ m ∈ members, m.weight < n)
    (subAvpsJson : List (String × Json)) :
    (insertMembers fmt map n members hn subAvpsJson).isSome ↔
      ∀ m ∈ members, (avpToNameValue fmt map m).isSome := by
  induction members generalizing subAvpsJson with
  | nil => simp [insertMembers]
  | cons m members ih =>
    rw [insertMembers, List.forall_mem_cons]
    have hrest : ∀ m ∈ members, m.weight < n := fun m hm => hn m (List.mem_cons_of_mem _ hm)
    cases hm : avpToNameValue fmt map m with
    | none => simp
    | some nameValue =>
      cases nameValue with
      | none => simpa using ih hrest subAvpsJson
      | some p => simpa using ih hrest (Json.insert subAvpsJson p.1 p.2)

/-- An AVP is converted without a panic exactly if it and everything in it is showable. -/
theorem avpToNameValue_isSome_iff : (avpToNameValue fmt map a).isSome ↔ a.Shows fmt map := by
  induction hw : a.weight using Nat.strongRecOn generalizing a with
  | ind w ih =>
    rw [shows_iff]
    cases hnamed : map.getByCode a.code with
    | none =>
      rw [avpToNameValue_of_unknown hnamed]
      simp [Avp.Showable, hnamed]
    | some named =>
      by_cases htype : named.avpType = .grouped
      · have hshowable : a.Showable fmt map := by
          simp [Avp.Showable, hnamed, htype, AvpType.unwrapsData]
        cases hmembers : a.asGrouped with
        | none =>
          rw [avpToNameValue_of_not_grouped hnamed htype hmembers]
          simpa using hshowable
        | some members =>
          rw [avpToNameValue_of_grouped hnamed htype hmembers, Option.isSome_map,
            insertMembers_isSome_iff]
          -- the members are lighter, so the claim holds of them
          have hmembersIff : (∀ m ∈ members, (avpToNameValue fmt map m).isSome) ↔
              ∀ m ∈ members, m.Shows fmt map := by
            refine forall_congr' fun m => imp_congr_right fun hm => ih m.weight ?_ rfl
            rw [← hw]
            exact Avp.weight_lt_of_asGrouped hmembers m hm
          rw [hmembersIff]
          constructor
          · intro h
            refine ⟨hshowable, fun named' members' _ _ hmembers' => ?_⟩
            obtain rfl := Option.some.inj hmembers'
            exact h
          · intro h
            exact h.2 named members rfl htype rfl
      · rw [avpToNameValue_of_scalar hnamed htype, Option.isSome_map, scalarToValue_isSome_iff]
        have hmembers : ∀ named' members, some named = some named' → named'.avpType = .grouped →
            a.asGrouped = some members → ∀ m ∈ members, m.Shows fmt map := by
          intro named' members heq htype'
          obtain rfl := Option.some.inj heq
          exact absurd htype' htype
        rw [and_iff_left hmembers, Avp.Showable, hnamed]

theorem toJson_isSome_iff_shows {commandMap : CommandMap} {c : Command} :
    (c.toJson fmt commandMap map).isSome ↔ ∀ a ∈ c.avps, a.Shows fmt map := by
  rw [Command.toJson, Option.isSome_map, OrPanic.isSome_mapM_iff]
  simp [Command.avpJson, avpToNameValue_isSome_iff]

/-- **When a command is shown.** The JSON form is made without a panic exactly if every
AVP of the command, at any depth, is showable. -/
theorem toJson_isSome_iff {commandMap : CommandMap} {c : Command} :
    (c.toJson fmt commandMap map).isSome ↔
      ∀ a, Occurs map c.avps a → a.Showable fmt map := by
  rw [toJson_isSome_iff_shows]
  constructor
  · intro h b hoccurs
    obtain ⟨a, ha, hb⟩ := occurs_iff_exists.mp hoccurs
    exact h a ha b hb
  · intro h a ha b hb
    exact h b (occurs_of_mem ha hb)

/-! ### Commands from the wire -/

/-- An AVP that was read from bytes. -/
def Avp.Decoded (a : Avp) : Prop := ∃ data, Avp.decode data = .ok a

/-- The `u32` sums for the length of the AVP do not wrap. -/
def Avp.LengthExact (a : Avp) : Prop :=
  a.totalLength.toNat = (Avp.headerLength a.flags).toNat + a.payload.length ∧
    a.totalLengthIncludingPadding.toNat = a.totalLength.toNat + padLen 4 a.totalLength.toNat

theorem Avp.Decoded.data (h : a.Decoded) : a.data.isSome = true := by
  obtain ⟨data, hdecode⟩ := h
  rw [(decode_ok hdecode).1]
  rfl

theorem Avp.Decoded.lengthExact (h : a.Decoded) : a.LengthExact := by
  obtain ⟨data, hdecode⟩ := h
  obtain ⟨-, -, htotal, -, hlt⟩ := decode_ok hdecode
  have hpad := padLen_lt (k := 4) (by omega) a.totalLength.toNat
  refine ⟨htotal, (toNat_alignLength (n := a.totalLength.toNat) (by omega)).trans ?_⟩
  exact Nat.mod_eq_of_lt (by omega)

theorem decoded_of_decodeAvps {data : List UInt8} {length offset : Nat}
    (h : Command.decodeAvps data length offset [] = .ok avps) : ∀ a ∈ avps, a.Decoded :=
  Command.forall_decodeAvps h (fun _ _ hdecode => ⟨_, hdecode⟩) (by simp)

/-- The members of a group with data are decoded. -/
theorem decoded_of_asGrouped (ha : a.data.isSome = true) (h : a.asGrouped = some members) :
    ∀ m ∈ members, m.Decoded := by
  obtain ⟨data, hdata⟩ := Option.isSome_iff_exists.mp ha
  simp only [Avp.asGrouped, hdata] at h
  split at h
  · cases hd : Command.decodeAvps data data.length 0 [] with
    | error e =>
      rw [hd] at h
      cases h
    | ok r =>
      rw [hd] at h
      obtain rfl := Option.some.inj h
      exact decoded_of_decodeAvps hd
  · cases h

theorem Occurs.decoded (havps : ∀ a ∈ avps, a.Decoded) (hoccurs : Occurs map avps a) :
    a.Decoded := by
  induction hoccurs with
  | top hmem => exact havps _ hmem
  | inside _ _ _ hmembers hmem ih => exact decoded_of_asGrouped ih.data hmembers _ hmem

theorem Command.decoded_of_decode {data : List UInt8} {c : Command}
    (h : Command.decode data = .ok c) : ∀ a ∈ c.avps, a.Decoded := by
  unfold Command.decode at h
  split at h
  · cases h
  · dsimp only at h
    split at h
    · cases h
    · split at h
      · rename_i avps hd
        obtain rfl := Except.ok.inj h
        exact decoded_of_decodeAvps hd
      · cases h

end

/-- The JSON form of the command is made without a panic: nothing absent is unwrapped, no
time goes below zero, and no length the conversion adds up, of the members of a group it
reads from data, wraps. -/
structure Command.JsonSafe (fmt : Formats) (commandMap : CommandMap) (map : AvpMap)
    (c : Command) : Prop where
  shown : (c.toJson fmt commandMap map).isSome
  lengths : ∀ g members, Occurs map c.avps g → g.data.isSome = true →
    g.asGrouped = some members → ∀ m ∈ members, m.LengthExact

theorem Command.jsonSafe_iff_shown {fmt : Formats} {commandMap : CommandMap} {map : AvpMap}
    {c : Command} : c.JsonSafe fmt commandMap map ↔ (c.toJson fmt commandMap map).isSome := by
  refine ⟨JsonSafe.shown, fun hshown => ⟨hshown, fun g members _ hdata hmembers m hm => ?_⟩⟩
  exact (decoded_of_asGrouped hdata hmembers m hm).lengthExact

/-- **When a received command is shown.** The JSON form of a decoded command is made
without a panic exactly if, in a build with overflow checks, no AVP of a time type, at any
depth, carries a time before 1970. -/
theorem jsonSafe_iff (fmt : Formats) (commandMap : CommandMap) (map : AvpMap)
    {data : List UInt8} {c : Command} (h : Command.decode data = .ok c) :
    c.JsonSafe fmt commandMap map ↔
      ∀ a, Occurs map c.avps a → ∀ named, map.getByCode a.code = some named →
        named.avpType = .time → a.TimeFits fmt := by
  have hdecoded : ∀ a, Occurs map c.avps a → a.Decoded :=
    fun a => Occurs.decoded (Command.decoded_of_decode h)
  rw [Command.jsonSafe_iff_shown, toJson_isSome_iff]
  constructor
  · intro hshown a hoccurs named hnamed htype
    have hshowable := hshown a hoccurs
    rw [Avp.Showable, hnamed] at hshowable
    exact hshowable.2 htype
  · intro htimes a hoccurs
    have hdata := (hdecoded a hoccurs).data
    unfold Avp.Showable
    split
    · rename_i named hnamed
      exact ⟨fun _ => hdata, htimes a hoccurs named hnamed⟩
    · exact hdata

/-! ### A time before 1970 -/

/-- A request with an Event-Timestamp of the first second of 1900. -/
def earlyRequest : Command :=
  { code := 271, flags := 0xC0, applicationId := 3, hopByHopId := 1, endToEndId := 1
    avps := [⟨55, 0x40, none, some [0, 0, 0, 0], []⟩] }

theorem decode_earlyRequest : Command.decode earlyRequest.encode = .ok earlyRequest := by
  have hwf : earlyRequest.WellFormed := by
    refine ⟨by decide, fun a ha => ?_, by decide⟩
    rw [List.mem_singleton.mp ha]
    exact .scalar rfl
  exact Command.decode_encode hwf

theorem jsonSafe_iff_earlyRequest :
    earlyRequest.JsonSafe (standardTexts true).toFormats (.new String.toLower []) (.new []) ↔
      ∀ a, Occurs (.new []) earlyRequest.avps a → ∀ named,
        (AvpMap.new []).getByCode a.code = some named → named.avpType = .time →
          a.TimeFits (standardTexts true).toFormats :=
  jsonSafe_iff (standardTexts true).toFormats (.new String.toLower []) (.new []) decode_earlyRequest

/-- The subtraction panics on that request. -/
theorem not_jsonSafe_earlyRequest :
    Command.decode earlyRequest.encode = .ok earlyRequest ∧
      ¬earlyRequest.JsonSafe (standardTexts true).toFormats (.new String.toLower []) (.new []) := by
  refine ⟨decode_earlyRequest, fun h => ?_⟩
  let timestamp : Avp := ⟨55, 0x40, none, some [0, 0, 0, 0], []⟩
  have hnamed : (AvpMap.new []).getByCode timestamp.code =
      some ⟨"Event-Timestamp", 55, .time, true, none⟩ := rfl
  have hshowable := toJson_isSome_iff.mp h.shown timestamp (.top (List.mem_singleton_self _))
  rw [Avp.Showable, hnamed] at hshowable
  have hle : unixEpoch ≤ 0 := hshowable.2 rfl rfl 0 rfl
  exact absurd hle (by decide)

end RestDiameterBridge
