import RestDiameterBridge.AvpFromJson
import RestDiameterBridge.CommandJsonTotal

/-!
# RestDiameterBridge.CommandFromJsonTotal

When a JSON value is turned into a command, and that command shown as JSON again, without
a panic: what the REST listener does with every request.

Making an AVP panics at a time that overflows; members behind one that does not fit are
not reached (`nameValueToAvp_settles`). Showing the AVP goes by its code, and so perhaps
by another definition than the one it was made by (`shows_iff_of_made`). `restSafe_iff`
puts the two together.
-/

namespace RestDiameterBridge

open Bytes Avp

/-! ### Which values make an AVP -/

mutual
/-- The value fits the name: an AVP can be made. -/
def Fits (fmt : TextFormats) (map : AvpMap) (name : String) (value : Json) : Prop :=
  match value with
  | .object obj =>
      ∃ named, map.getByName name = some named ∧ named.avpType = .grouped ∧ MembersFit fmt map obj
  | value =>
      match map.getByName name with
      | some named => named.avpType ≠ .grouped ∧ (scalarBytes fmt named.avpType value).isSome
      | none => (genericCode name).isSome ∧ value.asStr.isSome
termination_by structural value
/-- All members of a group fit. -/
def MembersFit (fmt : TextFormats) (map : AvpMap) (obj : List (String × Json)) : Prop :=
  match obj with
  | [] => True
  | member :: rest => MemberFits fmt map member ∧ MembersFit fmt map rest
termination_by structural obj
/-- A member of a group fits. -/
def MemberFits (fmt : TextFormats) (map : AvpMap) (member : String × Json) : Prop :=
  match member with
  | (subName, subValue) => Fits fmt map subName subValue
termination_by structural member
end

mutual
/-- No time overflows before a value that does not fit is met. -/
def TimesCount (fmt : TextFormats) (map : AvpMap) (name : String) (value : Json) : Prop :=
  match value with
  | .object obj =>
      ∀ named, map.getByName name = some named → named.avpType = .grouped →
        MembersCount fmt map obj
  | value =>
      ∀ named, map.getByName name = some named →
        ¬TimeOverflows fmt.toFormats named.avpType value
termination_by structural value
/-- No time overflows in a member before one that does not fit. -/
def MembersCount (fmt : TextFormats) (map : AvpMap) (obj : List (String × Json)) : Prop :=
  match obj with
  | [] => True
  | member :: rest =>
      MemberCounts fmt map member ∧ (MemberFits fmt map member → MembersCount fmt map rest)
termination_by structural obj
/-- No time overflows in a member. -/
def MemberCounts (fmt : TextFormats) (map : AvpMap) (member : String × Json) : Prop :=
  match member with
  | (subName, subValue) => TimesCount fmt map subName subValue
termination_by structural member
end

section
variable {fmt : TextFormats} {map : AvpMap} {name : String} {value : Json} {named : AvpJson}
  {a : Avp}

@[simp] theorem memberFits_eq (member : String × Json) :
    MemberFits fmt map member = Fits fmt map member.1 member.2 := by
  rw [MemberFits]

@[simp] theorem memberCounts_eq (member : String × Json) :
    MemberCounts fmt map member = TimesCount fmt map member.1 member.2 := by
  rw [MemberCounts]

theorem timesCount_of_not_object (hobj : ∀ obj, value ≠ .object obj) :
    TimesCount fmt map name value ↔ ∀ named, map.getByName name = some named →
      ¬TimeOverflows fmt.toFormats named.avpType value := by
  cases value with
  | object obj => exact absurd rfl (hobj obj)
  | _ => simp only [TimesCount]

theorem fits_of_not_object (hobj : ∀ obj, value ≠ .object obj) :
    Fits fmt map name value ↔
      match map.getByName name with
      | some named => named.avpType ≠ .grouped ∧ (scalarBytes fmt named.avpType value).isSome
      | none => (genericCode name).isSome ∧ value.asStr.isSome := by
  cases value with
  | object obj => exact absurd rfl (hobj obj)
  | _ => simp only [Fits]

theorem genericAvp_isSome :
    (genericAvp fmt name value).isSome ↔ (genericCode name).isSome ∧ value.asStr.isSome := by
  cases hcode : genericCode name with
  | none => simp [genericAvp, hcode]
  | some code => cases value <;> simp [genericAvp, hcode, Json.asStr]

/-- No object overflows. -/
theorem not_timeOverflows_object (avpType : AvpType) (obj : List (String × Json)) :
    ¬TimeOverflows fmt.toFormats avpType (.object obj) := by
  intro hoverflow
  obtain ⟨_, _, u, hu, _⟩ := hoverflow
  cases hu

/-- A scalar is made unless its time overflows, and then exactly if the value has bytes. -/
theorem scalarToAvp_settles :
    OrPanic.Settles (scalarToAvp fmt named value)
      (¬TimeOverflows fmt.toFormats named.avpType value)
      (scalarBytes fmt named.avpType value).isSome := by
  by_cases hoverflow : TimeOverflows fmt.toFormats named.avpType value
  · rw [scalarToAvp_eq_none hoverflow]
    exact ⟨by simp [hoverflow], fun hnot => absurd hoverflow hnot⟩
  · rw [scalarToAvp_eq_some hoverflow]
    exact OrPanic.settles_some hoverflow (by rw [Option.isSome_map])

/-- The members of a group, if that holds of each of them. -/
theorem membersToAvps_settles {obj : List (String × Json)}
    (h : ∀ m ∈ obj, ∀ name, OrPanic.Settles (nameValueToAvp fmt map name m.2)
      (TimesCount fmt map name m.2) (Fits fmt map name m.2)) :
    OrPanic.Settles (membersToAvps fmt map obj) (MembersCount fmt map obj)
      (MembersFit fmt map obj) := by
  induction obj with
  | nil =>
    rw [membersToAvps, MembersCount, MembersFit]
    exact OrPanic.settles_some trivial (by simp)
  | cons m rest ih =>
    have hmember := h m List.mem_cons_self m.1
    have hrest := ih fun m' hm' => h m' (List.mem_cons_of_mem _ hm')
    rw [membersToAvps, memberToAvp_eq, MembersCount, MembersFit, memberFits_eq,
      memberCounts_eq]
    refine hmember.andThen List.cons hrest ?_ ?_ ?_
    · intro hpanic
      rw [hpanic]
    · intro hrefused
      rw [hrefused]
    · intro avp havp
      rw [havp]

/-- Making an AVP ends without a panic if no time overflows, and then with an AVP exactly if
the value fits. -/
theorem nameValueToAvp_settles :
    OrPanic.Settles (nameValueToAvp fmt map name value) (TimesCount fmt map name value)
      (Fits fmt map name value) := by
  induction value using Json.objectInduction generalizing name with
  | object obj ih =>
    cases hnamed : map.getByName name with
    | none =>
      rw [nameValueToAvp_of_unknown hnamed]
      exact OrPanic.settles_some (by simp [TimesCount, hnamed]) (by simp [Fits, hnamed, genericAvp])
    | some named =>
      by_cases htype : named.avpType = .grouped
      · rw [nameValueToAvp_of_grouped hnamed htype]
        have hmembers := membersToAvps_settles fun m hm name => @ih m hm name
        simpa [TimesCount, Fits, hnamed, htype] using hmembers.map _
      · rw [nameValueToAvp_of_scalar hnamed htype,
          scalarToAvp_eq_some (not_timeOverflows_object _ _), scalarBytes_object]
        exact OrPanic.settles_some (by simp [TimesCount, hnamed, htype])
          (by simp [Fits, hnamed, htype])
  | other value hobj =>
    rw [timesCount_of_not_object hobj, fits_of_not_object hobj]
    cases hnamed : map.getByName name with
    | none =>
      rw [nameValueToAvp_of_unknown hnamed]
      exact OrPanic.settles_some (by simp) genericAvp_isSome
    | some named =>
      simp only [Option.some.injEq, forall_eq']
      by_cases htype : named.avpType = .grouped
      · have hnot : ¬TimeOverflows fmt.toFormats named.avpType value := by
          intro hoverflow
          rw [htype] at hoverflow
          cases hoverflow.2.1
        rw [nameValueToAvp_of_not_object hnamed htype hobj]
        exact OrPanic.settles_some hnot (by simp [htype])
      · rw [nameValueToAvp_of_scalar hnamed htype]
        simpa [htype] using scalarToAvp_settles

end

/-! ### Which of them can be shown -/

mutual
/-- The AVP made for the name and the value can be shown: by the definition of its code,
bytes hold no time before 1970, and a group is not taken for something whose data is
unwrapped. -/
def JsonShows (fmt : TextFormats) (map : AvpMap) (name : String) (value : Json) : Prop :=
  match value with
  | .object obj =>
      ∀ named, map.getByName name = some named →
        match map.getByCode named.code with
        | some shown =>
            shown.avpType.unwrapsData = false ∧
              (shown.avpType = .grouped → MembersShow fmt map obj)
        | none => False
  | value =>
      match map.getByName name with
      | some named =>
          ∀ data, scalarBytes fmt named.avpType value = some data →
            (Avp.new named.code 0 none data).Shows fmt.toFormats map
      | none =>
          ∀ code data, genericCode name = some code → scalarBytes fmt .octetString value = some data →
            (Avp.new code 0 none data).Shows fmt.toFormats map
termination_by structural value
/-- All members of a group can be shown. -/
def MembersShow (fmt : TextFormats) (map : AvpMap) (obj : List (String × Json)) : Prop :=
  match obj with
  | [] => True
  | member :: rest => MemberShows fmt map member ∧ MembersShow fmt map rest
termination_by structural obj
/-- A member of a group can be shown. -/
def MemberShows (fmt : TextFormats) (map : AvpMap) (member : String × Json) : Prop :=
  match member with
  | (subName, subValue) => JsonShows fmt map subName subValue
termination_by structural member
end

section
variable {fmt : TextFormats} {map : AvpMap} {name : String} {value : Json} {named : AvpJson}
  {a a' : Avp}

/-- Whether an AVP can be shown depends on its code, its data and its members. -/
theorem shows_congr {fmt : Formats} (hcode : a.code = a'.code) (hdata : a.data = a'.data)
    (hsubs : a.subAvps = a'.subAvps) : a.Shows fmt map ↔ a'.Shows fmt map := by
  have htime : a.TimeFits fmt ↔ a'.TimeFits fmt := by
    rw [Avp.TimeFits, Avp.TimeFits, asUnsigned32, asUnsigned32, hdata]
  rw [shows_iff, shows_iff, Avp.Showable, Avp.Showable, asGrouped, asGrouped, isGrouped, isGrouped,
    hcode, hdata, hsubs]
  simp only [htime]

theorem membersShow_iff {obj : List (String × Json)} :
    MembersShow fmt map obj ↔ ∀ m ∈ obj, JsonShows fmt map m.1 m.2 := by
  induction obj with
  | nil => simp [MembersShow]
  | cons m rest ih => rw [MembersShow, MemberShows, List.forall_mem_cons, ih]

/-- A group that was made of members: what its code says of it. -/
theorem shows_fromGrouped_iff {code : UInt32} {flags : UInt8} {vendorId : Option UInt32}
    {subAvps : List Avp} :
    (fromGrouped code flags vendorId subAvps).Shows fmt.toFormats map ↔
      match map.getByCode code with
      | some shown =>
          shown.avpType.unwrapsData = false ∧
            (shown.avpType = .grouped → ∀ m ∈ subAvps, m.Shows fmt.toFormats map)
      | none => False := by
  have hmembers : ∀ m, (∃ members, (fromGrouped code flags vendorId subAvps).asGrouped =
      some members ∧ m ∈ members) ↔ m ∈ subAvps := by
    intro m
    cases subAvps with
    | nil => simp [asGrouped, fromGrouped, isGrouped]
    | cons sub subAvps => simp [asGrouped, fromGrouped, isGrouped]
  rw [shows_iff]
  cases hshown : map.getByCode code with
  | none => simp [Avp.Showable, fromGrouped, hshown]
  | some shown =>
    have hshowable : (fromGrouped code flags vendorId subAvps).Showable fmt.toFormats map ↔
        shown.avpType.unwrapsData = false := by
      simp [Avp.Showable, fromGrouped, hshown, Avp.TimeFits, asUnsigned32]
    rw [hshowable]
    refine and_congr_right fun _ => ?_
    constructor
    · intro h htype m hm
      obtain ⟨members, hgrouped, hin⟩ := (hmembers m).mpr hm
      exact h shown members hshown htype hgrouped m hin
    · intro h named members hnamed htype hgrouped m hm
      obtain rfl := Option.some.inj (hshown.symm.trans hnamed)
      exact h htype m ((hmembers m).mp ⟨members, hgrouped, hm⟩)

/-- The AVP made for a value can be shown exactly if the value says so. -/
theorem shows_iff_of_made (h : nameValueToAvp fmt map name value = some (some a)) :
    a.Shows fmt.toFormats map ↔ JsonShows fmt map name value := by
  induction value using Json.objectInduction generalizing name a with
  | object obj ih =>
    cases made_of_nameValueToAvp h with
    | scalar _ _ _ hdata =>
      rw [scalarBytes_object] at hdata
      cases hdata
    | @group _ named subAvps hnamed htype hmembers =>
      have hsubs : (∀ m ∈ subAvps, m.Shows fmt.toFormats map) ↔ MembersShow fmt map obj := by
        rw [membersShow_iff]
        clear h
        induction hmembers with
        | nil => simp
        | @cons m sub obj subAvps hm _ ihrest =>
          rw [List.forall_mem_cons, List.forall_mem_cons, ih m List.mem_cons_self hm,
            ihrest fun m' hm' => ih m' (List.mem_cons_of_mem _ hm')]
      rw [shows_fromGrouped_iff]
      simp only [JsonShows, hnamed, Option.some.injEq, forall_eq', hsubs]
  | other value hobj =>
    cases made_of_nameValueToAvp h with
    | @scalar _ named data hnamed htype _ hdata =>
      have hshows : JsonShows fmt map name value ↔
          ∀ data, scalarBytes fmt named.avpType value = some data →
            (Avp.new named.code 0 none data).Shows fmt.toFormats map := by
        cases value with
        | object obj => exact absurd rfl (hobj obj)
        | _ => simp only [JsonShows, hnamed]
      rw [hshows, hdata]
      simp only [Option.some.injEq, forall_eq']
      exact shows_congr rfl rfl rfl
    | group => exact absurd rfl (hobj _)
    | @generic s code hnone hcode =>
      simp only [JsonShows, hnone, hcode, scalarBytes, Option.some.injEq]
      constructor
      · intro hshows code' data hcode' hdata
        subst hcode' hdata
        exact (shows_congr rfl rfl rfl).mp hshows
      · intro hshows
        exact (shows_congr rfl rfl rfl).mp (hshows _ _ rfl rfl)

end

/-! ### Commands -/

/-- The names of header fields: their members stand for no AVP. -/
def headerNames : List String :=
  ["code", "name", "application_id", "hop_by_hop_id", "end_to_end_id", "callback-url", "flags"]

/-- The AVP made for a value, if there is one. -/
def itemAvps (fmt : TextFormats) (map : AvpMap) (name : String) (item : Json) : List Avp :=
  ((nameValueToAvp fmt map name item).getD none).toList

/-- The AVPs made for a member. -/
def memberAvps (fmt : TextFormats) (map : AvpMap) (m : String × Json) : List Avp :=
  if m.1 ∈ headerNames then [] else m.2.items.flatMap (itemAvps fmt map m.1)

section
variable {fmt : TextFormats} {commandMap : CommandMap} {map : AvpMap}

theorem readAvps_isSome_iff (name : String) (c : Command) (items : List Json) :
    (Command.readAvps fmt map name c items).isSome ↔
      ∀ item ∈ items, TimesCount fmt map name item := by
  refine OrPanic.isSome_foldlM_iff (fun c item => ?_) c
  rw [Option.isSome_map]
  exact nameValueToAvp_settles.isSome_iff

theorem readAvps_avps {name : String} {c c' : Command} {items : List Json}
    (h : Command.readAvps fmt map name c items = some c') :
    c'.avps = c.avps ++ items.flatMap (itemAvps fmt map name) := by
  refine OrPanic.foldlM_flatMap (g := Command.avps) (fun c item c' hstep => ?_) h
  obtain ⟨avp, havp, rfl⟩ := Option.map_eq_some_iff.mp hstep
  rw [itemAvps, havp]
  rfl

/-- A member is read without a panic exactly if it is of the header, or no time in it
overflows. -/
theorem readMember_isSome_iff (c : Command) (m : String × Json) :
    (Command.readMember fmt map c m).isSome ↔
      (m.1 ∉ headerNames → ∀ item ∈ m.2.items, TimesCount fmt map m.1 item) := by
  obtain ⟨k, v⟩ := m
  rw [← readAvps_isSome_iff k c]
  unfold Command.readMember headerNames
  dsimp only
  split <;> rename_i h1
  · rcases h1 with rfl | rfl <;> simp
  · split <;> rename_i h2
    · subst h2
      split <;> simp
    · split <;> rename_i h3
      · simp [h3]
      · split <;> rename_i h4
        · simp [h4]
        · split <;> rename_i h5
          · simp [h5]
          · split <;> rename_i h6
            · simp [h6]
            · rw [not_or] at h1
              simp [h1, h2, h3, h4, h5, h6]

theorem readMember_avps {c c' : Command} {m : String × Json}
    (h : Command.readMember fmt map c m = some c') : c'.avps = c.avps ++ memberAvps fmt map m := by
  obtain ⟨k, v⟩ := m
  have hheader : k ∈ headerNames → c'.avps = c.avps →
      c'.avps = c.avps ++ memberAvps fmt map (k, v) := by
    intro hk heq
    rw [heq, memberAvps, if_pos hk, List.append_nil]
  unfold Command.readMember at h
  dsimp only at h
  split at h <;> rename_i h1
  · obtain rfl := Option.some.inj h
    exact hheader (by rcases h1 with rfl | rfl <;> simp [headerNames]) rfl
  · split at h <;> rename_i h2
    · refine hheader (by simp [headerNames, h2]) ?_
      split at h <;> obtain rfl := Option.some.inj h <;> rfl
    · split at h <;> rename_i h3
      · obtain rfl := Option.some.inj h
        exact hheader (by simp [headerNames, h3]) rfl
      · split at h <;> rename_i h4
        · obtain rfl := Option.some.inj h
          exact hheader (by simp [headerNames, h4]) rfl
        · split at h <;> rename_i h5
          · obtain rfl := Option.some.inj h
            exact hheader (by simp [headerNames, h5]) rfl
          · split at h <;> rename_i h6
            · obtain rfl := Option.some.inj h
              exact hheader (by simp [headerNames, h6]) rfl
            · rw [not_or] at h1
              have hk : k ∉ headerNames := by simp [headerNames, h1, h2, h3, h4, h5, h6]
              rw [readAvps_avps h, memberAvps, if_neg hk]

/-- The AVPs of a command made from an object, in some order. -/
theorem fromJsonValue_avps {obj : List (String × Json)} {c : Command}
    (h : Command.fromJsonValue fmt commandMap map (.object obj) = some (.ok c)) :
    c.avps.Perm (obj.flatMap (memberAvps fmt map)) := by
  unfold Command.fromJsonValue at h
  dsimp only at h
  split at h
  · rename_i d hd
    obtain ⟨read, hread, heq⟩ := Option.map_eq_some_iff.mp h
    obtain rfl := Except.ok.inj heq
    have havps := OrPanic.foldlM_flatMap (f := Command.readMember fmt map) (g := Command.avps)
      (fun _ _ _ => readMember_avps) hread
    rw [List.nil_append] at havps
    rw [← havps]
    exact List.mergeSort_perm _ _
  · cases Option.some.inj h

theorem forall_avps_iff {P : Avp → Prop} {obj : List (String × Json)} {c : Command}
    (h : Command.fromJsonValue fmt commandMap map (.object obj) = some (.ok c)) :
    (∀ a ∈ c.avps, P a) ↔ ∀ m ∈ obj, m.1 ∉ headerNames → ∀ item ∈ m.2.items,
      ∀ a ∈ itemAvps fmt map m.1 item, P a := by
  simp only [(fromJsonValue_avps h).mem_iff, List.mem_flatMap, memberAvps]
  constructor
  · intro hall m hm hk item hitem a ha
    refine hall a ⟨m, hm, ?_⟩
    rw [if_neg hk]
    exact List.mem_flatMap.mpr ⟨item, hitem, ha⟩
  · intro hall a hexists
    obtain ⟨m, hm, ha⟩ := hexists
    split at ha
    · cases ha
    · rename_i hk
      obtain ⟨item, hitem, ha⟩ := List.mem_flatMap.mp ha
      exact hall m hm hk item hitem a ha

/-- The AVP made for a value can be shown exactly if that holds of the value, where it fits. -/
theorem itemAvps_shows_iff {name : String} {item : Json} (h : TimesCount fmt map name item) :
    (∀ a ∈ itemAvps fmt map name item, a.Shows fmt.toFormats map) ↔
      (Fits fmt map name item → JsonShows fmt map name item) := by
  obtain ⟨r, hr⟩ := Option.isSome_iff_exists.mp (nameValueToAvp_settles.isSome_iff.mpr h)
  have hfits := nameValueToAvp_settles.eq_none_iff h
  rw [hr, Option.some.injEq] at hfits
  cases r with
  | none => simp [itemAvps, hr, hfits.mp rfl]
  | some a =>
    have hfit : Fits fmt map name item := by simpa using hfits
    simp [itemAvps, hr, hfit, shows_iff_of_made hr]

/-- A command is made of an object that names one, exactly if no time in it overflows;
otherwise there is a panic. -/
theorem fromJsonValue_ok_iff {obj : List (String × Json)} {d : CommandJson}
    (hd : Command.getCommandDefine fmt obj commandMap = some d) :
    (∃ c, Command.fromJsonValue fmt commandMap map (.object obj) = some (.ok c)) ↔
      ∀ m ∈ obj, m.1 ∉ headerNames → ∀ item ∈ m.2.items, TimesCount fmt map m.1 item := by
  rw [← OrPanic.isSome_foldlM_iff readMember_isSome_iff
    ({ code := d.code, flags := 0, applicationId := d.applicationId, hopByHopId := 0,
       endToEndId := 0, avps := [] } : Command), Option.isSome_iff_exists]
  simp only [Command.fromJsonValue, hd, Option.map_eq_some_iff, Except.ok.injEq]
  constructor
  · intro hexists
    obtain ⟨_, read, hread, _⟩ := hexists
    exact ⟨read, hread⟩
  · intro hexists
    obtain ⟨read, hread⟩ := hexists
    exact ⟨_, read, hread, rfl⟩

theorem fromJsonValue_ok {obj : List (String × Json)} {d : CommandJson} {r : Except String Command}
    (hd : Command.getCommandDefine fmt obj commandMap = some d)
    (h : Command.fromJsonValue fmt commandMap map (.object obj) = some r) : ∃ c, r = .ok c := by
  simp only [Command.fromJsonValue, hd] at h
  obtain ⟨read, _, rfl⟩ := Option.map_eq_some_iff.mp h
  exact ⟨_, rfl⟩

end

/-- What the listener does with a JSON value does not panic: making the command, and then
its JSON form. -/
def RestSafe (fmt : TextFormats) (commandMap : CommandMap) (map : AvpMap) (v : Json) : Prop :=
  ∃ r, Command.fromJsonValue fmt commandMap map v = some r ∧
    ∀ c, r = .ok c → c.JsonSafe fmt.toFormats commandMap map

/-- **When a REST request is taken without a panic.** Making a command of a JSON value and
showing it does not panic exactly if, in an object that names a command, no time overflows
before a value that does not fit its name, and every AVP that is made can be shown by the
definition of its code. -/
theorem restSafe_iff (fmt : TextFormats) (commandMap : CommandMap) (map : AvpMap) (v : Json) :
    RestSafe fmt commandMap map v ↔
      ∀ obj, v = .object obj → (Command.getCommandDefine fmt obj commandMap).isSome →
        ∀ m ∈ obj, m.1 ∉ headerNames → ∀ item ∈ m.2.items,
          TimesCount fmt map m.1 item ∧ (Fits fmt map m.1 item → JsonShows fmt map m.1 item) := by
  cases v with
  | object obj =>
    cases hd : Command.getCommandDefine fmt obj commandMap with
    | none =>
      have hresult : Command.fromJsonValue fmt commandMap map (.object obj) =
          some (.error "Command not found in command map") := by
        simp only [Command.fromJsonValue, hd]
      simp [RestSafe, hresult, hd]
    | some d =>
      simp only [Json.object.injEq, forall_eq', hd, Option.isSome_some, true_imp_iff]
      have hshown : ∀ c, Command.fromJsonValue fmt commandMap map (.object obj) = some (.ok c) →
          (c.JsonSafe fmt.toFormats commandMap map ↔ ∀ m ∈ obj, m.1 ∉ headerNames →
            ∀ item ∈ m.2.items, ∀ a ∈ itemAvps fmt map m.1 item, a.Shows fmt.toFormats map) := by
        intro c hc
        rw [Command.jsonSafe_iff_shown, toJson_isSome_iff_shows, forall_avps_iff hc]
      constructor
      · intro hsafe m hm hk item hitem
        obtain ⟨r, hr, hall⟩ := hsafe
        obtain ⟨c, rfl⟩ := fromJsonValue_ok hd hr
        have hcounts := (fromJsonValue_ok_iff hd).mp ⟨c, hr⟩ m hm hk item hitem
        have hshows := (hshown c hr).mp (hall c rfl) m hm hk item hitem
        exact ⟨hcounts, (itemAvps_shows_iff hcounts).mp hshows⟩
      · intro h
        obtain ⟨c, hc⟩ := (fromJsonValue_ok_iff hd).mpr
          fun m hm hk item hitem => (h m hm hk item hitem).1
        refine ⟨_, hc, fun c' hc' => ?_⟩
        obtain rfl := Except.ok.inj hc'
        refine (hshown c hc).mpr fun m hm hk item hitem => ?_
        obtain ⟨hcounts, hshows⟩ := h m hm hk item hitem
        exact (itemAvps_shows_iff hcounts).mpr hshows
  | _ => simp [RestSafe, Command.fromJsonValue]

/-! ### Two requests that panic -/

/-- An accounting request at a time that does not fit. -/
def lateRequest : Json :=
  .object [("Event-Timestamp", .ofInt 2085978496), ("code", .ofInt 271)]

/-- Two definitions of one code, of which the second, a text, counts for showing. -/
def sharedCode : List AvpJson :=
  [⟨"Group-A", 5000, .grouped, true, none⟩, ⟨"Text-B", 5000, .utf8String, true, none⟩]

/-- An accounting request with the group. -/
def sharedRequest : Json := .object [("Group-A", .object []), ("code", .ofInt 271)]

/-- The sum panics on the one, in a build with overflow checks, and the unwrapping of the
group's data on the other, in every build. -/
theorem not_restSafe_lateRequest :
    ¬RestSafe (standardTexts true) (.new String.toLower []) (.new []) lateRequest ∧
      ¬RestSafe (standardTexts false) (.new String.toLower []) (.new sharedCode) sharedRequest := by
  constructor
  · intro h
    obtain ⟨r, hr, -⟩ := h
    have hnone : Command.fromJsonValue (standardTexts true) (.new String.toLower []) (.new [])
        lateRequest = none := rfl
    rw [hnone] at hr
    cases hr
  · intro h
    obtain ⟨r, hr, hsafe⟩ := h
    obtain ⟨c, rfl⟩ := fromJsonValue_ok (d := standardCommands[2]) rfl hr
    have hshows := toJson_isSome_iff_shows.mp (hsafe c rfl).shown
    have hmem : Avp.fromGrouped 5000 0x40 none [] ∈ c.avps := by
      rw [(fromJsonValue_avps hr).mem_iff]
      exact List.mem_singleton_self _
    have hgroup := shows_fromGrouped_iff.mp (hshows _ hmem)
    exact absurd hgroup.1 (by decide)

end RestDiameterBridge
