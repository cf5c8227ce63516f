import RestDiameterBridge.CommandJson
import RestDiameterBridge.Lib.Checked

/-!
# RestDiameterBridge.CheckedReads

The reads and the loops of the decoder and of the conversion to JSON.

The functions of this module are those of `src/avp.rs` and `src/command.rs` with every index
and slice checked against its buffer, every loop bounded in its turns and every recursion in
its depth. They are shown to come to what `Command.decode` and `Command.toJson` give, so no
read of them is out of range, and no loop goes on for ever: a turn of a loop moves the offset
by eight bytes at least, and the members of a group have less data than the group.
-/

namespace RestDiameterBridge

open Bytes Checked

/-- The reads of a word. -/
theorem indices_four {data : List UInt8} {i : Nat} (h : i + 4 ≤ data.length) :
    indices data i 4 = .done [data[i], data[i + 1], data[i + 2], data[i + 3]] := by
  rw [indices_of_le h, take_four h]

namespace Avp

/-! ### The header and the value -/

/-- `decode_header`, with its reads. -/
def decodeHeaderChecked (buffer : List UInt8) :
    Checked (Option (UInt32 × UInt8 × UInt32 × Option UInt32)) :=
  if buffer.length < 8 then .done none
  else do
    let code ← indices buffer 0 4
    let flags ← index buffer 4
    let length ← indices buffer 5 3
    if flags &&& 0x80 != 0 then
      if buffer.length < 12 then .done none
      else do
        let vendorId ← indices buffer 8 4
        if fromBeBytes (0 :: length) < headerLength flags then .done none
        else .done (some (fromBeBytes code, flags, fromBeBytes (0 :: length),
          some (fromBeBytes vendorId)))
    else
      if fromBeBytes (0 :: length) < headerLength flags then .done none
      else .done (some (fromBeBytes code, flags, fromBeBytes (0 :: length), none))

/-- `decode`, with its reads. -/
def decodeChecked (data : List UInt8) : Checked (Except String Avp) := do
  match ← decodeHeaderChecked data with
  | some (code, flags, length, vendorId) =>
      if data.length < length.toNat then .done (.error "Data length mismatch")
      else do
        let avpData ← slice data (headerLength flags).toNat length.toNat
        .done (.ok (Avp.new code flags vendorId avpData))
  | none => .done (.error "Failed to decode AVP header")

/-- The header is read inside the buffer. -/
theorem decodeHeaderChecked_eq (buffer : List UInt8) :
    decodeHeaderChecked buffer = .done (decodeHeader buffer) := by
  unfold decodeHeaderChecked decodeHeader
  by_cases h8 : buffer.length < 8
  · rw [if_pos h8, dif_pos h8]
  have hcode : indices buffer 0 4 = .done [buffer[0], buffer[1], buffer[2], buffer[3]] :=
    indices_four (by omega)
  have hlength : indices buffer 5 3 = .done [buffer[5], buffer[6], buffer[7]] := by
    simp [indices, index_of_lt (l := buffer) (i := 5) (by omega),
      index_of_lt (l := buffer) (i := 6) (by omega), index_of_lt (l := buffer) (i := 7) (by omega)]
  rw [if_neg h8, dif_neg h8, hcode, hlength, index_of_lt (by omega)]
  simp only [done_bind]
  split
  · by_cases h12 : buffer.length < 12
    · rw [if_pos h12, dif_pos h12]
    · rw [if_neg h12, dif_neg h12, indices_four (by omega), done_bind]
      split <;> rfl
  · split <;> rfl

/-- The value lies between a header that is there and the end of the data. -/
theorem decodeChecked_eq (data : List UInt8) : decodeChecked data = .done (decode data) := by
  unfold decodeChecked decode
  rw [decodeHeaderChecked_eq, done_bind]
  cases hheader : decodeHeader data with
  | some header =>
    obtain ⟨code, flags, length, vendorId⟩ := header
    obtain ⟨-, hcovers, -⟩ := decodeHeader_some hheader
    dsimp only
    by_cases hshort : data.length < length.toNat
    · rw [if_pos hshort, if_pos hshort]
    · rw [if_neg hshort, if_neg hshort, slice_of_le hcovers (by omega), done_bind]
  | none => rfl

end Avp

/-! ### The loops -/

namespace Command

/-- One turn of the loop over AVPs: the AVP at `offset`, and the offset behind it. -/
def decodeTurn (data : List UInt8) (offset : Nat) : Checked (Except String (Avp × Nat)) := do
  let rest ← sliceFrom data offset
  match ← Avp.decodeChecked rest with
  | .ok avp => .done (.ok (avp, offset + avp.totalLengthIncludingPadding.toNat))
  | .error e => .done (.error s!"Failed to decode AVP at offset {offset}: {e}")

/-- The loop over AVPs, for so many turns. -/
def decodeAvpsChecked (data : List UInt8) (length : Nat) :
    Nat → Nat → List Avp → Checked (Except String (List Avp))
  | 0, _, _ => .running
  | turns + 1, offset, avps =>
      if offset + 8 ≤ length then do
        match ← decodeTurn data offset with
        | .ok (avp, next) => decodeAvpsChecked data length turns next (avps ++ [avp])
        | .error e => .done (.error e)
      else .done (.ok avps)

/-- `decode`, with its reads. -/
def decodeChecked (turns : Nat) (data : List UInt8) : Checked (Except String Command) :=
  if data.length < 20 then .done (.error "Data too short for Diameter header")
  else do
    let length := fromBeBytes (← indices data 0 4) &&& 0x00FFFFFF
    if data.length < length.toNat then .done (.error "Data length mismatch")
    else do
      let flags ← index data 4
      let code := fromBeBytes (← indices data 4 4) &&& 0x00FFFFFF
      let applicationId := fromBeBytes (← indices data 8 4)
      let hopByHopId := fromBeBytes (← indices data 12 4)
      let endToEndId := fromBeBytes (← indices data 16 4)
      match ← decodeAvpsChecked data length.toNat turns 20 [] with
      | .ok avps => .done (.ok { code, flags, applicationId, hopByHopId, endToEndId, avps })
      | .error e => .done (.error e)

section
variable {data : List UInt8} {length offset turns : Nat} {avps : List Avp}

theorem decodeTurn_eq (h : offset ≤ data.length) :
    decodeTurn data offset = .done (match Avp.decode (data.drop offset) with
      | .ok avp => .ok (avp, offset + avp.totalLengthIncludingPadding.toNat)
      | .error e => .error s!"Failed to decode AVP at offset {offset}: {e}") := by
  rw [decodeTurn, sliceFrom_of_le h, done_bind, Avp.decodeChecked_eq, done_bind]
  cases Avp.decode (data.drop offset) <;> rfl

/-- A turn moves the offset by a header at least. -/
theorem le_of_decodeTurn {avp : Avp} {next : Nat}
    (h : decodeTurn data offset = .done (.ok (avp, next))) : offset + 8 ≤ next := by
  by_cases hle : offset ≤ data.length
  · rw [decodeTurn_eq hle] at h
    cases hd : Avp.decode (data.drop offset) with
    | ok a =>
      rw [hd] at h
      have hmoved := Avp.le_totalLengthIncludingPadding hd
      obtain ⟨-, rfl⟩ := Prod.mk.inj (Except.ok.inj (Checked.done.inj h))
      omega
    | error e =>
      rw [hd] at h
      cases h
  · rw [decodeTurn, sliceFrom, if_neg hle] at h
    cases h

/-- The loop ends in as many turns as there are headers up to `length`. -/
theorem decodeAvpsChecked_eq (hlength : length ≤ data.length) (hpos : 0 < turns)
    (hturns : length < offset + 8 * turns) :
    decodeAvpsChecked data length turns offset avps =
      .done (decodeAvps data length offset avps) := by
  induction turns generalizing offset avps with
  | zero => omega
  | succ turns ih =>
    rw [decodeAvpsChecked]
    by_cases hle : offset + 8 ≤ length
    · rw [if_pos hle, decodeTurn_eq (by omega), done_bind]
      cases hd : Avp.decode (data.drop offset) with
      | ok avp =>
        have hmoved := Avp.le_totalLengthIncludingPadding hd
        rw [decodeAvps_of_ok hle hd]
        exact ih (by omega) (by omega)
      | error e => rw [decodeAvps_of_error hle hd]
    · rw [if_neg hle, decodeAvps_of_lt (by omega)]

theorem decodeChecked_eq (hturns : data.length < 8 * turns) :
    decodeChecked turns data = .done (decode data) := by
  unfold decodeChecked decode
  by_cases h20 : data.length < 20
  · rw [if_pos h20, dif_pos h20]
  have hlength : indices data 0 4 = .done [data[0], data[1], data[2], data[3]] :=
    indices_four (by omega)
  rw [if_neg h20, dif_neg h20, hlength, done_bind]
  dsimp only
  by_cases hshort : data.length < (fromBeBytes [data[0], data[1], data[2], data[3]] &&&
      0x00FFFFFF).toNat
  · rw [if_pos hshort, if_pos hshort]
  rw [if_neg hshort, if_neg hshort, index_of_lt (by omega), indices_four (by omega),
    indices_four (by omega), indices_four (by omega), indices_four (by omega)]
  simp only [done_bind]
  rw [decodeAvpsChecked_eq (by omega) (by omega) (by omega), done_bind]
  cases decodeAvps data _ 20 [] <;> rfl

end

end Command

/-! ### The conversion -/

namespace Avp

/-- The accessors of numbers, with their reads. -/
def asNumberChecked (a : Avp) (n : Nat) : Checked (Option Nat) :=
  match a.data with
  | some data =>
      if data.length = n then do
        let bytes ← indices data 0 n
        .done (some (beValue bytes))
      else .done none
  | none => .done none

/-- `as_address`, with its reads. -/
def asAddressChecked (fmt : Formats) (a : Avp) : Checked (Option String) :=
  match a.data with
  | some data =>
      if data.length < 2 then .done none
      else do
        let addressType := beValue (← indices data 0 2)
        if addressType = 1 ∧ data.length = 6 then
          .done (some (fmt.ipv4 (← indices data 2 4)))
        else if addressType = 2 ∧ data.length = 18 then
          .done (some (fmt.ipv6 (← slice data 2 18)))
        else .done none
  | none => .done none

/-- `as_time`, with its reads. -/
def asTimeChecked (fmt : Formats) (a : Avp) : Checked (Option UInt32) := do
  match ← a.asNumberChecked 4 with
  | some ntpTime =>
      if fmt.overflowChecks && ntpTime.toUInt32 < 2208988800 then .panicked
      else .done (some (ntpTime.toUInt32 - 2208988800))
  | none => .done none

/-- `as_grouped`, with its reads. -/
def asGroupedChecked (turns : Nat) (a : Avp) : Checked (Option (List Avp)) :=
  match a.data with
  | some data =>
      if 8 ≤ data.length then do
        let r ← Command.decodeAvpsChecked data data.length turns 0 []
        .done r.toOption
      else .done none
  | none => .done (if a.isGrouped then some a.subAvps else none)

section
variable {a : Avp} {fmt : Formats} {turns : Nat} {data : List UInt8}

theorem asNumberChecked_eq (a : Avp) (n : Nat) : a.asNumberChecked n = .done (a.asNumber n) := by
  unfold asNumberChecked asNumber
  cases a.data with
  | none => rfl
  | some data =>
    dsimp only
    by_cases hn : data.length = n
    · rw [if_pos hn, if_pos hn, indices_of_le (by omega), done_bind, List.drop_zero, ← hn,
        List.take_length]
    · rw [if_neg hn, if_neg hn]

theorem asAddressChecked_eq (fmt : Formats) (a : Avp) :
    a.asAddressChecked fmt = .done (a.asAddress fmt) := by
  unfold asAddressChecked asAddress
  cases a.data with
  | none => rfl
  | some data =>
    dsimp only
    by_cases h2 : data.length < 2
    · rw [if_pos h2, if_pos h2]
    rw [if_neg h2, if_neg h2, indices_of_le (by omega), done_bind, List.drop_zero]
    by_cases hv4 : beValue (data.take 2) = 1 ∧ data.length = 6
    · have hall : (data.drop 2).take 4 = data.drop 2 :=
        List.take_of_length_le (by rw [List.length_drop]; omega)
      rw [if_pos hv4, if_pos hv4, indices_of_le (by omega), done_bind, hall]
    rw [if_neg hv4, if_neg hv4]
    by_cases hv6 : beValue (data.take 2) = 2 ∧ data.length = 18
    · rw [if_pos hv6, if_pos hv6, slice_of_le (by omega) (by omega), done_bind,
        List.take_of_length_le (by omega)]
    · rw [if_neg hv6, if_neg hv6]

theorem asUnsigned32_eq_asNumber (a : Avp) : a.asUnsigned32 = (a.asNumber 4).map Nat.toUInt32 := by
  unfold asUnsigned32 asNumber
  cases a.data with
  | none => rfl
  | some data =>
    dsimp only
    split <;> rfl

theorem asTimeChecked_eq (fmt : Formats) (a : Avp) :
    a.asTimeChecked fmt = ofOrPanic (a.asTime fmt) := by
  unfold asTimeChecked asTime
  rw [asNumberChecked_eq, done_bind, asUnsigned32_eq_asNumber]
  cases a.asNumber 4 with
  | none => rfl
  | some ntpTime =>
    dsimp only [Option.map_some]
    split <;> rfl

/-- A group over data is expanded in as many turns as its data has headers. -/
theorem asGroupedChecked_eq (hdata : a.data = some data) (hturns : data.length < 8 * turns) :
    a.asGroupedChecked turns = .done a.asGrouped := by
  unfold asGroupedChecked asGrouped
  rw [hdata]
  dsimp only
  by_cases h8 : 8 ≤ data.length
  · rw [if_pos h8, if_pos h8, Command.decodeAvpsChecked_eq (Nat.le_refl _) (by omega) (by omega),
      done_bind]
  · rw [if_neg h8, if_neg h8]

/-- The AVPs that a loop reads are over data, which is shorter by a header. -/
theorem length_lt_of_decodeAvps {length offset : Nat} {avps : List Avp}
    (h : Command.decodeAvps data length offset [] = .ok avps) :
    ∀ m ∈ avps, ∃ data', m.data = some data' ∧ data'.length + 8 ≤ data.length := by
  refine Command.forall_decodeAvps h (fun offset m hm => ?_) (by simp)
  obtain ⟨hvalue, -, htotal, hle, -⟩ := decode_ok hm
  have hheader := le_headerLength m.flags
  rw [List.length_drop] at hle
  exact ⟨m.payload, hvalue, by omega⟩

/-- So are the members of a group over data. -/
theorem length_lt_of_asGrouped {members : List Avp} (hdata : a.data = some data)
    (h : a.asGrouped = some members) :
    ∀ m ∈ members, ∃ data', m.data = some data' ∧ data'.length + 8 ≤ data.length := by
  unfold asGrouped at h
  rw [hdata] at h
  dsimp only at h
  split at h
  · cases hloop : Command.decodeAvps data data.length 0 [] with
    | error e =>
      rw [hloop] at h
      cases h
    | ok r =>
      rw [hloop] at h
      obtain rfl := Option.some.inj h
      exact length_lt_of_decodeAvps hloop
  · cases h

end

end Avp

/-- The value of an AVP of a type other than `Grouped`, with its reads. -/
def scalarToValueChecked (fmt : Formats) (avpType : AvpType) (avp : Avp) :
    Checked (Option Json) :=
  match avpType with
  | .octetString => ofOrPanic (avp.data.map fun data => some (.string (fmt.base64 data)))
  | .address => do
      let value ← avp.asAddressChecked fmt
      .done (value.map .string)
  | .time => do
      let value ← avp.asTimeChecked fmt
      .done (value.map fun v => .ofInt v.toNat)
  | .utf8String | .diameterIdentity | .diameterUri | .ipFilterRule =>
      ofOrPanic (avp.data.map fun data => (String.fromUTF8? ⟨data.toArray⟩).map .string)
  | .integer32 | .enumerated => do
      let value ← avp.asNumberChecked 4
      .done (some (.ofOption (value.map fun v => .ofInt (BitVec.ofNat 32 v).toInt)))
  | .unsigned32 => do
      let value ← avp.asNumberChecked 4
      .done (some (.ofOption (value.map fun v => .ofInt v.toUInt32.toNat)))
  | .integer64 => do
      let value ← avp.asNumberChecked 8
      .done (some (.ofOption (value.map fun v => .ofInt (BitVec.ofNat 64 v).toInt)))
  | .unsigned64 => do
      let value ← avp.asNumberChecked 8
      .done (some (.ofOption (value.map fun v => .ofInt v.toUInt64.toNat)))
  | .float32 => do
      let value ← avp.asNumberChecked 4
      .done (some (.ofOption (value.map fun v => .ofFloat (Float32.ofBits v.toUInt32).toFloat)))
  | .float64 => do
      let value ← avp.asNumberChecked 8
      .done (some (.ofOption (value.map fun v => .ofFloat (Float.ofBits v.toUInt64))))
  | .grouped => .done none

/-- `avp_to_name_value`, with its reads, for so many levels of groups. -/
def avpToNameValueChecked (fmt : Formats) (map : AvpMap) :
    Nat → Avp → Checked (Option (String × Json))
  | 0, _ => .running
  | levels + 1, avp =>
      match map.getByCode avp.code with
      | some named =>
          if named.avpType = .grouped then do
            match ← avp.asGroupedChecked (levels + 1) with
            | some groupedAvp =>
                let subAvpsJson ← groupedAvp.foldlM (fun subAvpsJson subAvp => do
                  match ← avpToNameValueChecked fmt map levels subAvp with
                  | some (subName, subValue) => .done (Json.insert subAvpsJson subName subValue)
                  | none => .done subAvpsJson) []
                .done (some (named.name, .object subAvpsJson))
            | none => .done none
          else do
            let value ← scalarToValueChecked fmt named.avpType avp
            .done (value.map fun value => (named.name, value))
      | none => ofOrPanic
          (avp.data.map fun data => some (s!"AVP-{avp.code}", .string (fmt.base64 data)))

/-- `to_json`, with its reads. -/
def Command.toJsonChecked (fmt : Formats) (commandMap : CommandMap) (avpMap : AvpMap)
    (levels : Nat) (c : Command) : Checked Json := do
  let avpsJson ← c.avps.mapM fun avp => do
    let nameValue ← avpToNameValueChecked fmt avpMap levels avp
    .done (nameValue.getD (s!"Unknown-AVP-{avp.code}", .string "Unknown"))
  .done (.object (Json.collectAll (c.headerJson commandMap) avpsJson))

section
variable {fmt : Formats} {map : AvpMap}

theorem scalarToValueChecked_eq (avpType : AvpType) (avp : Avp) :
    scalarToValueChecked fmt avpType avp = ofOrPanic (scalarToValue fmt avpType avp) := by
  cases avpType with
  | octetString | utf8String | diameterIdentity | diameterUri | ipFilterRule | grouped => rfl
  | address =>
    rw [scalarToValueChecked, Avp.asAddressChecked_eq]
    rfl
  | time =>
    rw [scalarToValueChecked, Avp.asTimeChecked_eq, ofOrPanic_map]
    rfl
  | integer32 | enumerated =>
    rw [scalarToValueChecked, Avp.asNumberChecked_eq, done_bind, scalarToValue, Avp.asInteger32,
      Option.map_map]
    rfl
  | integer64 =>
    rw [scalarToValueChecked, Avp.asNumberChecked_eq, done_bind, scalarToValue, Avp.asInteger64,
      Option.map_map]
    rfl
  | unsigned32 =>
    rw [scalarToValueChecked, Avp.asNumberChecked_eq, done_bind, scalarToValue,
      Avp.asUnsigned32_eq_asNumber, Option.map_map]
    rfl
  | unsigned64 =>
    rw [scalarToValueChecked, Avp.asNumberChecked_eq, done_bind, scalarToValue, Avp.asUnsigned64,
      Option.map_map]
    rfl
  | float32 =>
    rw [scalarToValueChecked, Avp.asNumberChecked_eq, done_bind, scalarToValue, Avp.asFloat32,
      Option.map_map]
    rfl
  | float64 =>
    rw [scalarToValueChecked, Avp.asNumberChecked_eq, done_bind, scalarToValue, Avp.asFloat64,
      Option.map_map]
    rfl

/-- The loop over the members of a group reads nothing if no member does. -/
theorem foldlM_insertMembers {n : Nat} {convert : Avp → Checked (Option (String × Json))}
    {members : List Avp} (hn : ∀ m ∈ members, m.weight < n)
    (h : ∀ m ∈ members, convert m = ofOrPanic (avpToNameValue fmt map m))
    (subAvpsJson : List (String × Json)) :
    members.foldlM (fun subAvpsJson subAvp => do
        match ← convert subAvp with
        | some (subName, subValue) => .done (Json.insert subAvpsJson subName subValue)
        | none => .done subAvpsJson) subAvpsJson =
      ofOrPanic (insertMembers fmt map n members hn subAvpsJson) := by
  induction members generalizing subAvpsJson with
  | nil =>
    rw [insertMembers]
    rfl
  | cons m members ih =>
    have hrest := ih (fun b hb => hn b (List.mem_cons_of_mem _ hb))
      fun b hb => h b (List.mem_cons_of_mem _ hb)
    rw [insertMembers, List.foldlM_cons, h m List.mem_cons_self]
    cases avpToNameValue fmt map m with
    | none => rfl
    | some nameValue =>
      cases nameValue with
      | none => exact hrest subAvpsJson
      | some p => exact hrest (Json.insert subAvpsJson p.1 p.2)

/-- The conversion of an AVP over data ends in as many levels as its data has headers. -/
theorem avpToNameValueChecked_eq {levels : Nat} {avp : Avp} {data : List UInt8}
    (hdata : avp.data = some data) (hlevels : data.length < 8 * levels) :
    avpToNameValueChecked fmt map levels avp = ofOrPanic (avpToNameValue fmt map avp) := by
  induction levels generalizing avp data with
  | zero => omega
  | succ levels ih =>
    rw [avpToNameValueChecked]
    cases hnamed : map.getByCode avp.code with
    | none =>
      rw [avpToNameValue_of_unknown hnamed]
    | some named =>
      dsimp only
      by_cases htype : named.avpType = .grouped
      · rw [if_pos htype, Avp.asGroupedChecked_eq hdata hlevels, done_bind]
        cases hmembers : avp.asGrouped with
        | none => rw [avpToNameValue_of_not_grouped hnamed htype hmembers]; rfl
        | some members =>
          rw [avpToNameValue_of_grouped hnamed htype hmembers, ← ofOrPanic_map]
          have hshorter := Avp.length_lt_of_asGrouped hdata hmembers
          dsimp only
          rw [foldlM_insertMembers (Avp.weight_lt_of_asGrouped hmembers)]
          intro m hm
          obtain ⟨data', hdata', hle⟩ := hshorter m hm
          exact ih hdata' (by omega)
      · rw [if_neg htype, scalarToValueChecked_eq, avpToNameValue_of_scalar hnamed htype,
          ofOrPanic_map]

/-- So are the AVPs of a command that was read. -/
theorem Command.length_lt_of_decode {data : List UInt8} {c : Command}
    (h : Command.decode data = .ok c) :
    ∀ a ∈ c.avps, ∃ data', a.data = some data' ∧ data'.length + 8 ≤ data.length := by
  unfold decode at h
  split at h
  · cases h
  dsimp only at h
  split at h
  · cases h
  split at h
  · rename_i avps hloop
    obtain rfl := Except.ok.inj h
    exact Avp.length_lt_of_decodeAvps hloop
  · cases h

/-- The conversion of a command ends if that of each AVP does. -/
theorem Command.toJsonChecked_eq {commandMap : CommandMap} {levels : Nat} {c : Command}
    (h : ∀ a ∈ c.avps,
      avpToNameValueChecked fmt map levels a = ofOrPanic (avpToNameValue fmt map a)) :
    c.toJsonChecked fmt commandMap map levels = ofOrPanic (c.toJson fmt commandMap map) := by
  unfold toJsonChecked toJson
  rw [← ofOrPanic_map]
  refine congrArg (· >>= _) (mapM_ofOrPanic fun a ha => ?_)
  rw [h a ha, ofOrPanic_map]
  rfl

end

/-- **No read is out of range, and every loop ends.** Whatever the bytes: a turn of the loop
over AVPs moves the offset by eight at least; the reads of an AVP, of a command and of a group
are inside the buffer, and the loops over a message and a group end in as many turns as there
are headers in it; the members of a group have less data than the group; and the conversion of
a command that was read ends within so many levels, with no read out of range. -/
theorem reads_inRange (fmt : Formats) (commandMap : CommandMap) (avpMap : AvpMap)
    (data : List UInt8) (turns : Nat) (hturns : data.length < 8 * turns) :
    (∀ offset avp next, Command.decodeTurn data offset = .done (.ok (avp, next)) →
      offset + 8 ≤ next) ∧
    Avp.decodeChecked data = .done (Avp.decode data) ∧
    Command.decodeChecked turns data = .done (Command.decode data) ∧
    (∀ a : Avp, a.data = some data → a.asGroupedChecked turns = .done a.asGrouped ∧
      ∀ members, a.asGrouped = some members → ∀ m ∈ members,
        ∃ data', m.data = some data' ∧ data'.length < data.length) ∧
    ∀ c, Command.decode data = .ok c →
      c.toJsonChecked fmt commandMap avpMap turns = ofOrPanic (c.toJson fmt commandMap avpMap) := by
  refine ⟨fun _ _ _ => Command.le_of_decodeTurn, Avp.decodeChecked_eq data,
    Command.decodeChecked_eq hturns, fun a hdata => ?_, fun c hc => ?_⟩
  · refine ⟨Avp.asGroupedChecked_eq hdata hturns, fun members hmembers m hm => ?_⟩
    obtain ⟨data', hdata', hle⟩ := Avp.length_lt_of_asGrouped hdata hmembers m hm
    exact ⟨data', hdata', by omega⟩
  · refine Command.toJsonChecked_eq fun a ha => ?_
    obtain ⟨data', hdata', hle⟩ := Command.length_lt_of_decode hc a ha
    exact avpToNameValueChecked_eq hdata' (by omega)

/-- A message of 52 bytes with a group of two members. -/
theorem reads_inRange_failedAnswer :
    Command.decodeChecked 7 failedAnswer.encode = .done (.ok failedAnswer) ∧
      failedAnswer.toJsonChecked ⟨fun _ => "", fun _ => "", fun _ => "", true⟩ ⟨∅, ∅⟩ (.new []) 7 =
        ofOrPanic (failedAnswer.toJson ⟨fun _ => "", fun _ => "", fun _ => "", true⟩ ⟨∅, ∅⟩
          (.new [])) := by
  obtain ⟨-, -, hdecode, -, hjson⟩ := reads_inRange
    ⟨fun _ => "", fun _ => "", fun _ => "", true⟩ ⟨∅, ∅⟩ (.new []) failedAnswer.encode 7 (by decide)
  rw [decode_failedAnswer] at hdecode
  exact ⟨hdecode, hjson failedAnswer decode_failedAnswer⟩

end RestDiameterBridge
