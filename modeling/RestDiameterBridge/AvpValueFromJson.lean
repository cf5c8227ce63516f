import RestDiameterBridge.CommandJsonRoundTrip

/-!
# RestDiameterBridge.AvpValueFromJson

The number or the address of an AVP made from JSON, as its typed accessor reads it.

A JSON number is accepted if it is an `i64` or a `u64`, whatever the type of the AVP can
hold, and a text is accepted as an address whatever it is. `convertsExactly_iff` says for
which values the AVP nevertheless holds what was given.
-/

namespace RestDiameterBridge

open Bytes Avp

/-- The numbers `name_value_to_avp` accepts for a type. -/
def AvpType.Accepts (avpType : AvpType) (i : Int) : Prop :=
  match avpType with
  | integer32 | enumerated | integer64 => -2 ^ 63 ≤ i ∧ i < 2 ^ 63
  | unsigned32 | unsigned64 | time => 0 ≤ i ∧ i < 2 ^ 64
  | _ => False

/-- The numbers a type can hold. Times are counted from 1900 in 32 bits. -/
def AvpType.InRange (avpType : AvpType) (i : Int) : Prop :=
  match avpType with
  | integer32 | enumerated => -2 ^ 31 ≤ i ∧ i < 2 ^ 31
  | integer64 => -2 ^ 63 ≤ i ∧ i < 2 ^ 63
  | unsigned32 => 0 ≤ i ∧ i < 2 ^ 32
  | unsigned64 => 0 ≤ i ∧ i < 2 ^ 64
  | time => 0 ≤ i ∧ i + 2208988800 < 2 ^ 32
  | _ => False

/-- The types whose values are numbers or addresses. -/
def AvpType.isExact : AvpType → Bool
  | integer32 | enumerated | unsigned32 | integer64 | unsigned64 | time | address => true
  | _ => false

/-- The text of the address that a text denotes. -/
def TextFormats.addressText (fmt : TextFormats) (s : String) : Option String :=
  match fmt.parseIpv4 s with
  | some ip => some (fmt.ipv4 ip.toList)
  | none => (fmt.parseIpv6 s).map fun ip => fmt.ipv6 ip.toList

/-- The typed accessor returns what was given. A time has not wrapped either. -/
def Avp.HoldsExactly (fmt : TextFormats) (avpType : AvpType) (value : Json) (a : Avp) : Prop :=
  match avpType, value with
  | .integer32, .number (.int i) | .enumerated, .number (.int i) => a.asInteger32 = some i
  | .unsigned32, .number (.int i) => a.asUnsigned32.map (fun u => (u.toNat : Int)) = some i
  | .integer64, .number (.int i) => a.asInteger64 = some i
  | .unsigned64, .number (.int i) => a.asUnsigned64.map (fun u => (u.toNat : Int)) = some i
  | .time, .number (.int i) =>
      (a.asTime fmt.toFormats).map (·.map fun t => (t.toNat : Int)) = some (some i) ∧
        a.asUnsigned32.map (fun u => (u.toNat : Int)) = some (i + 2208988800)
  | .address, .string s => ∃ text, fmt.addressText s = some text ∧
      a.asAddress fmt.toFormats = some text
  | _, _ => False

/-- The conversion fails, or makes an AVP that holds what was given. -/
def ConvertsExactly (fmt : TextFormats) (map : AvpMap) (name : String) (avpType : AvpType)
    (value : Json) : Prop :=
  nameValueToAvp fmt map name value = some none ∨
    ∃ a, nameValueToAvp fmt map name value = some (some a) ∧ a.HoldsExactly fmt avpType value

/-- An accepted number is one the type can hold, and a text is that of an address. -/
def FitsType (fmt : TextFormats) (avpType : AvpType) (value : Json) : Prop :=
  match avpType, value with
  | .address, .string s => (fmt.addressText s).isSome
  | _, .number (.int i) => avpType.Accepts i → avpType.InRange i
  | _, _ => True

/-! ### Numbers -/

theorem toInt_ofInt_eq_self_iff {bits : Nat} (hbits : 0 < bits) {i : Int} :
    (BitVec.ofInt bits i).toInt = i ↔ -2 ^ (bits - 1) ≤ i ∧ i < 2 ^ (bits - 1) := by
  constructor
  · intro h
    rw [← h]
    have hlt := (BitVec.ofInt bits i).toInt_lt
    have hle := (BitVec.ofInt bits i).le_toInt
    exact ⟨by exact_mod_cast hle, by exact_mod_cast hlt⟩
  · intro h
    exact BitVec.toInt_ofInt_eq_self hbits h.1 h.2

section
variable {fmt : TextFormats} {code : UInt32} {flags : UInt8} {vendorId : Option UInt32} {i : Int}

/-- A number written in two's complement is read back if its bits suffice. -/
theorem asNumber_ofInt {w bits : Nat} (hbits : 256 ^ w = 2 ^ bits) :
    ((new code flags vendorId (beBytes w (BitVec.ofInt bits i).toNat)).asNumber w).map
      (fun v => (BitVec.ofNat bits v).toInt) = some (BitVec.ofInt bits i).toInt := by
  have hlt : (BitVec.ofInt bits i).toNat < 256 ^ w := hbits ▸ (BitVec.ofInt bits i).isLt
  rw [asNumber_eq rfl (length_beBytes w _), beValue_beBytes, Nat.mod_eq_of_lt hlt, Option.map_some,
    BitVec.ofNat_toNat, BitVec.setWidth_eq]

theorem asUnsigned32_toBeBytes (x : UInt32) :
    (new code flags vendorId (toBeBytes x)).asUnsigned32 = some x := by
  rw [asUnsigned32_eq rfl (length_toBeBytes x), fromBeBytes_toBeBytes]

theorem toNat_since1900 {x : UInt32} (hx : 2208988800 + x.toNat < 2 ^ 32) :
    (2208988800 + x).toNat = 2208988800 + x.toNat := by
  rw [UInt32.toNat_add]
  exact Nat.mod_eq_of_lt hx

/-- A time that does not wrap is read back. -/
theorem asTime_toBeBytes {x : UInt32} (hx : 2208988800 + x.toNat < 2 ^ 32) :
    (new code flags vendorId (toBeBytes (2208988800 + x))).asTime fmt.toFormats =
      some (some x) := by
  have hle : ¬2208988800 + x < 2208988800 := by
    rw [UInt32.not_lt, UInt32.le_iff_toNat_le, toNat_since1900 hx]
    exact Nat.le_add_right _ _
  have hback : 2208988800 + x - 2208988800 = x := by
    rw [UInt32.add_comm, UInt32.add_sub_cancel]
  rw [asTime, asUnsigned32_toBeBytes]
  simp [hle, hback]

theorem toNat_toUInt32_toUInt64 {n : Nat} (hn : n < 2 ^ 64) :
    n.toUInt64.toUInt32.toNat = n % 2 ^ 32 := by
  rw [UInt64.toNat_toUInt32, Nat.toUInt64_eq, UInt64.toNat_ofNat_of_lt' hn]

/-- A signed number is written in two's complement. -/
theorem asNumber_ofInt_eq_iff {w bits : Nat} (hwidth : 256 ^ w = 2 ^ bits) (hbits : 0 < bits) :
    ((new code flags vendorId (beBytes w (BitVec.ofInt bits i).toNat)).asNumber w).map
        (fun v => (BitVec.ofNat bits v).toInt) = some i ↔
      -2 ^ (bits - 1) ≤ i ∧ i < 2 ^ (bits - 1) := by
  rw [asNumber_ofInt hwidth, Option.some.injEq]
  exact toInt_ofInt_eq_self_iff hbits

/-- An unsigned number is cut to 32 bits. -/
theorem asUnsigned32_toUInt32_eq_iff {n : Nat} (hn : n < 2 ^ 64) :
    (new code flags vendorId (toBeBytes n.toUInt64.toUInt32)).asUnsigned32.map
        (fun u => (u.toNat : Int)) = some (n : Int) ↔ n < 2 ^ 32 := by
  rw [asUnsigned32_toBeBytes, Option.map_some, toNat_toUInt32_toUInt64 hn, Option.some.injEq]
  omega

theorem asUnsigned64_beBytes {n : Nat} (hn : n < 2 ^ 64) :
    (new code flags vendorId (beBytes 8 n)).asUnsigned64.map (fun u => (u.toNat : Int)) =
      some (n : Int) := by
  have hback : beValue (beBytes 8 n) = n := by
    rw [beValue_beBytes]
    exact Nat.mod_eq_of_lt (by omega)
  rw [asUnsigned64, asNumber_eq rfl (length_beBytes 8 n), hback, Option.map_some, Option.map_some,
    Nat.toUInt64_eq, UInt64.toNat_ofNat_of_lt' hn]

/-- A time is counted from 1900, and read back unless that wraps. -/
theorem asTime_toUInt32_eq_iff {n : Nat} (hn : n < 2 ^ 64) :
    (((new code flags vendorId (toBeBytes (2208988800 + n.toUInt64.toUInt32))).asTime
          fmt.toFormats).map (·.map fun t => (t.toNat : Int)) = some (some (n : Int)) ∧
        ((2208988800 + n.toUInt64.toUInt32).toNat : Int) = n + 2208988800) ↔
      n + 2208988800 < 2 ^ 32 := by
  have hx := toNat_toUInt32_toUInt64 hn
  constructor
  · intro h
    have hlt := (2208988800 + n.toUInt64.toUInt32).toNat_lt
    omega
  · intro h
    have hfits : 2208988800 + n.toUInt64.toUInt32.toNat < 2 ^ 32 := by omega
    rw [asTime_toBeBytes hfits, toNat_since1900 hfits, hx]
    simp only [Option.map_some, Option.some.injEq]
    omega

/-- The data of an accepted number holds it exactly if the type can. -/
theorem holdsExactly_iff {avpType : AvpType} {bytes : List UInt8} (haccepts : avpType.Accepts i)
    (hbytes : scalarBytes fmt avpType (.number (.int i)) = some bytes) :
    (new code flags vendorId bytes).HoldsExactly fmt avpType (.number (.int i)) ↔
      avpType.InRange i := by
  have hunsigned : 0 ≤ i ∧ i < 2 ^ 64 → ∃ n : Nat, i = n ∧ n < 2 ^ 64 := fun hrange =>
    ⟨i.toNat, by omega, by omega⟩
  cases avpType with
  | integer32 | enumerated =>
    have hread : (JsonNumber.int i).asI64 = some i := if_pos haccepts
    simp only [scalarBytes, hread, Option.map_some, Option.some.injEq] at hbytes
    subst hbytes
    exact asNumber_ofInt_eq_iff (by norm_num) (by omega)
  | integer64 =>
    have hread : (JsonNumber.int i).asI64 = some i := if_pos haccepts
    simp only [scalarBytes, hread, Option.map_some, Option.some.injEq] at hbytes
    subst hbytes
    exact asNumber_ofInt_eq_iff (by norm_num) (by omega)
  | unsigned32 =>
    obtain ⟨n, rfl, hn⟩ := hunsigned haccepts
    simp only [scalarBytes, asU64_int hn, Option.map_some, Option.some.injEq] at hbytes
    subst hbytes
    rw [HoldsExactly, asUnsigned32_toUInt32_eq_iff hn, AvpType.InRange]
    omega
  | unsigned64 =>
    obtain ⟨n, rfl, hn⟩ := hunsigned haccepts
    have hvalue : n.toUInt64.toNat = n := UInt64.toNat_ofNat_of_lt' hn
    simp only [scalarBytes, asU64_int hn, Option.map_some, Option.some.injEq, hvalue] at hbytes
    subst hbytes
    exact iff_of_true (asUnsigned64_beBytes hn) haccepts
  | time =>
    obtain ⟨n, rfl, hn⟩ := hunsigned haccepts
    simp only [scalarBytes, asU64_int hn, Option.map_some, Option.some.injEq] at hbytes
    subst hbytes
    rw [HoldsExactly, asUnsigned32_toBeBytes, Option.map_some, Option.some.injEq,
      asTime_toUInt32_eq_iff hn, AvpType.InRange]
    omega
  | _ => exact haccepts.elim

/-! ### Addresses -/

/-- The octets behind the address type are read back. -/
theorem asAddress_octets {addressType n : Nat} {octets : List UInt8}
    (hlength : octets.length = n) (htype : addressType < 2 ^ 16) :
    (new code flags vendorId (beBytes 2 addressType ++ octets)).asAddress fmt.toFormats =
      if addressType = 1 ∧ n = 4 then some (fmt.ipv4 octets)
      else if addressType = 2 ∧ n = 16 then some (fmt.ipv6 octets)
      else none := by
  have htake : (beBytes 2 addressType ++ octets).take 2 = beBytes 2 addressType :=
    List.take_left' (length_beBytes 2 addressType)
  have hdrop : (beBytes 2 addressType ++ octets).drop 2 = octets :=
    List.drop_left' (length_beBytes 2 addressType)
  have hsize : (beBytes 2 addressType ++ octets).length = n + 2 := by
    rw [List.length_append, length_beBytes, hlength, Nat.add_comm]
  have hvalue : beValue (beBytes 2 addressType) = addressType := by
    rw [beValue_beBytes]
    exact Nat.mod_eq_of_lt htype
  simp only [asAddress, new, htake, hdrop, hsize, hvalue]
  rw [if_neg (by omega)]
  simp only [show n + 2 = 6 ↔ n = 4 by omega, show n + 2 = 18 ↔ n = 16 by omega]

/-- A text is held exactly if it is that of an address: another one leaves no data. -/
theorem holdsExactly_address_iff {s : String} {bytes : List UInt8}
    (hbytes : scalarBytes fmt .address (.string s) = some bytes) :
    (new code flags vendorId bytes).HoldsExactly fmt .address (.string s) ↔
      (fmt.addressText s).isSome = true := by
  rw [scalarBytes, fromAddress] at hbytes
  rw [HoldsExactly, TextFormats.addressText]
  cases hv4 : fmt.parseIpv4 s with
  | some ip =>
    simp only [hv4] at hbytes
    obtain rfl := Option.some.inj hbytes
    refine iff_of_true ⟨_, rfl, ?_⟩ rfl
    exact asAddress_octets ip.length_toList (by decide)
  | none =>
    cases hv6 : fmt.parseIpv6 s with
    | some ip =>
      simp only [hv4, hv6] at hbytes
      obtain rfl := Option.some.inj hbytes
      refine iff_of_true ⟨_, rfl, ?_⟩ rfl
      exact asAddress_octets ip.length_toList (by decide)
    | none => simp

end

/-! ### Every value -/

section
variable {fmt : TextFormats} {avpType : AvpType} {value : Json} {i : Int}

theorem exists_scalarBytes (fmt : TextFormats) (haccepts : avpType.Accepts i) :
    ∃ bytes, scalarBytes fmt avpType (.number (.int i)) = some bytes := by
  cases avpType with
  | integer32 | enumerated | integer64 =>
    have hread : (JsonNumber.int i).asI64 = some i := if_pos haccepts
    simp [scalarBytes, hread]
  | unsigned32 | unsigned64 | time =>
    have hread : (JsonNumber.int i).asU64 = some i.toNat.toUInt64 := if_pos haccepts
    simp [scalarBytes, hread]
  | _ => exact haccepts.elim

theorem scalarBytes_of_not_accepts (htype : avpType.isExact = true) (h : ¬avpType.Accepts i) :
    scalarBytes fmt avpType (.number (.int i)) = none := by
  cases avpType with
  | integer32 | enumerated | integer64 =>
    have hread : (JsonNumber.int i).asI64 = none := if_neg h
    simp [scalarBytes, hread]
  | unsigned32 | unsigned64 | time =>
    have hread : (JsonNumber.int i).asU64 = none := if_neg h
    simp [scalarBytes, hread]
  | address => rfl
  | _ => cases htype

/-- A value is an accepted number, a text for an address, or it is refused. -/
theorem value_cases (fmt : TextFormats) (htype : avpType.isExact = true) (value : Json) :
    (∃ i, value = .number (.int i) ∧ avpType.Accepts i) ∨
      (∃ s, avpType = .address ∧ value = .string s) ∨
      (scalarBytes fmt avpType value = none ∧ FitsType fmt avpType value) := by
  cases value with
  | number num =>
    cases num with
    | int i =>
      by_cases h : avpType.Accepts i
      · exact .inl ⟨i, rfl, h⟩
      · refine .inr (.inr ⟨scalarBytes_of_not_accepts htype h, ?_⟩)
        cases avpType <;> exact fun haccepts => absurd haccepts h
    | float value =>
      refine .inr (.inr ?_)
      cases avpType <;> first | exact ⟨rfl, trivial⟩ | exact absurd htype (by decide)
  | string s =>
    by_cases haddress : avpType = .address
    · exact .inr (.inl ⟨s, haddress, rfl⟩)
    · refine .inr (.inr ?_)
      cases avpType <;>
        first | exact absurd rfl haddress | exact ⟨rfl, trivial⟩ | exact absurd htype (by decide)
  | _ =>
    refine .inr (.inr ?_)
    cases avpType <;> exact ⟨rfl, trivial⟩

theorem fitsType_number : FitsType fmt avpType (.number (.int i)) ↔
    (avpType.Accepts i → avpType.InRange i) := by
  cases avpType <;> exact Iff.rfl

/-- A time that panics is one that 32 bits from 1900 do not hold. -/
theorem not_fitsType_of_timeOverflows (h : TimeOverflows fmt.toFormats avpType value) :
    ¬FitsType fmt avpType value := by
  obtain ⟨-, rfl, u, hu, hlarge⟩ := h
  cases value with
  | number num =>
    cases num with
    | int i =>
      intro hfits
      by_cases haccepts : AvpType.time.Accepts i
      · obtain ⟨n, rfl⟩ := Int.eq_ofNat_of_zero_le haccepts.1
        have hn : n < 2 ^ 64 := by exact_mod_cast haccepts.2
        obtain rfl := Option.some.inj ((asU64_int hn).symm.trans hu)
        have hrange := (fitsType_number.mp hfits haccepts).2
        rw [toNat_toUInt32_toUInt64 hn] at hlarge
        omega
      · cases (if_neg haccepts).symm.trans hu
    | float f => cases hu
  | _ => cases hu

end

/-- **Which values come through.** For an entry whose values are numbers or addresses,
the conversion fails or the AVP holds what was given exactly if an accepted number is one
the type can hold, and a text is that of an address. -/
theorem convertsExactly_iff {fmt : TextFormats} {map : AvpMap} {name : String} {named : AvpJson}
    (hnamed : map.getByName name = some named) (htype : named.avpType.isExact = true)
    (value : Json) :
    ConvertsExactly fmt map name named.avpType value ↔ FitsType fmt named.avpType value := by
  have hscalar : named.avpType ≠ .grouped := by
    intro h
    rw [h] at htype
    cases htype
  rw [ConvertsExactly, nameValueToAvp_of_scalar hnamed hscalar]
  by_cases htime : TimeOverflows fmt.toFormats named.avpType value
  · rw [scalarToAvp_eq_none htime]
    exact iff_of_false (by simp) (not_fitsType_of_timeOverflows htime)
  rw [scalarToAvp_eq_some htime]
  rcases value_cases fmt htype value with ⟨i, rfl, haccepts⟩ | ⟨s, haddress, rfl⟩ | ⟨hnone, hfits⟩
  · obtain ⟨bytes, hbytes⟩ := exists_scalarBytes fmt haccepts
    simp only [hbytes, Option.map_some, Option.some.injEq, exists_eq_left', reduceCtorEq, false_or]
    rw [holdsExactly_iff haccepts hbytes, fitsType_number]
    exact ⟨fun h _ => h, fun h => h haccepts⟩
  · obtain ⟨bytes, hbytes⟩ : ∃ bytes, scalarBytes fmt .address (.string s) = some bytes :=
      ⟨_, rfl⟩
    simp only [haddress, hbytes, Option.map_some, Option.some.injEq, exists_eq_left', reduceCtorEq,
      false_or]
    exact holdsExactly_address_iff hbytes
  · rw [hnone]
    exact iff_of_true (.inl rfl) hfits

theorem convertsExactly_iff_stateId :
    ConvertsExactly (standardTexts true) (.new []) "Origin-State-Id" .unsigned32 (.ofInt 7) := by
  have hnamed : (AvpMap.new []).getByName "Origin-State-Id" =
      some ⟨"Origin-State-Id", 278, .unsigned32, true, none⟩ := rfl
  have hrange : AvpType.unsigned32.InRange 7 := (by decide : (0 : Int) ≤ 7 ∧ (7 : Int) < 2 ^ 32)
  exact (convertsExactly_iff hnamed rfl _).mpr fun _ => hrange

/-- A number beyond 32 bits is cut off, and a host name makes an address without data. -/
theorem not_convertsExactly_stateId :
    nameValueToAvp (standardTexts true) (.new []) "Origin-State-Id" (.ofInt 4294967303) =
        some (some (.new 278 0x40 none [0, 0, 0, 7])) ∧
      ¬ConvertsExactly (standardTexts true) (.new []) "Origin-State-Id" .unsigned32
        (.ofInt 4294967303) ∧
      nameValueToAvp (standardTexts true) (.new []) "Host-IP-Address" (.string "localhost") =
        some (some (.new 257 0x40 none [])) ∧
      ¬ConvertsExactly (standardTexts true) (.new []) "Host-IP-Address" .address
        (.string "localhost") := by
  have hnumber : nameValueToAvp (standardTexts true) (.new []) "Origin-State-Id"
      (.ofInt 4294967303) = some (some (.new 278 0x40 none [0, 0, 0, 7])) := rfl
  have haddress : nameValueToAvp (standardTexts true) (.new []) "Host-IP-Address"
      (.string "localhost") = some (some (.new 257 0x40 none [])) := rfl
  refine ⟨hnumber, ?_, haddress, ?_⟩
  · intro h
    rcases h with h | ⟨a, h, hexact⟩
    · cases hnumber.symm.trans h
    · obtain rfl := Option.some.inj (Option.some.inj (hnumber.symm.trans h))
      have hread : (7 : Int) = 4294967303 := Option.some.inj hexact
      exact absurd hread (by decide)
  · intro h
    rcases h with h | ⟨a, h, hexact⟩
    · cases haddress.symm.trans h
    · obtain rfl := Option.some.inj (Option.some.inj (haddress.symm.trans h))
      obtain ⟨text, -, hread⟩ := hexact
      cases hread

end RestDiameterBridge
