import RestDiameterBridge.CommandDictionary
import RestDiameterBridge.Lib.AddressText
import RestDiameterBridge.Lib.Base64

/-!
# RestDiameterBridge.CommandFromJson

A command made from JSON (`name_value_to_avp` in `src/avp.rs`, `Command::from_json_value`
in `src/command.rs`).

A member of the object is a header field or an AVP under its dictionary name; an array
stands for several AVPs of one name. AVPs that do not convert are left out, except in a
group, which fails with its first such member. The command definition gives the code and
some of the flags, and the order of the AVPs.
-/

namespace RestDiameterBridge

open Bytes

/-- The formats, and the readers of texts that are made outside the repository. -/
structure TextFormats extends Formats where
  decodeBase64 : String → Option (List UInt8)
  parseIpv4 : String → Option (Vector UInt8 4)
  parseIpv6 : String → Option (Vector UInt8 16)
  toLowercase : String → String

/-- Base64, and addresses written out in full. -/
def standardTexts (overflowChecks : Bool) : TextFormats where
  base64 data := String.ofList (Base64.encode data)
  ipv4 ip := String.ofList (AddressText.ipv4 ip)
  ipv6 ip := String.ofList (AddressText.ipv6 ip)
  overflowChecks := overflowChecks
  decodeBase64 s := Base64.decode s.toList
  parseIpv4 s := AddressText.readIpv4 s.toList
  parseIpv6 s := AddressText.readIpv6 s.toList
  toLowercase s := String.ofList (s.toList.map Char.toLower)

/-- `parse::<u32>`: decimal digits, perhaps behind a plus sign. -/
def parseU32 (s : String) : Option UInt32 :=
  let digits : List Char := match s.toList with
    | '+' :: digits => digits
    | digits => digits
  let value : Nat := digits.foldl (fun n d => 10 * n + (d.toNat - '0'.toNat)) 0
  if !digits.isEmpty ∧ digits.all Char.isDigit ∧ value < 2 ^ 32 then some value.toUInt32
  else none

/-! ### AVPs -/

namespace Avp

/-- An address AVP. A text that is no address leaves it without data. -/
def fromAddress (fmt : TextFormats) (code : UInt32) (flags : UInt8) (vendorId : Option UInt32)
    (address : String) : Avp :=
  let data : List UInt8 := match fmt.parseIpv4 address with
    | some ip => beBytes 2 1 ++ ip.toList
    | none =>
        match fmt.parseIpv6 address with
        | some ip => beBytes 2 2 ++ ip.toList
        | none => []
  new code flags vendorId data

/-- A time AVP, in seconds since 1900, of a time in seconds since 1970. -/
def fromTime (fmt : Formats) (code : UInt32) (flags : UInt8) (vendorId : Option UInt32)
    (time : UInt32) : OrPanic Avp :=
  if fmt.overflowChecks && 2 ^ 32 ≤ 2208988800 + time.toNat then none
  else some (fromUnsigned32 code flags vendorId (2208988800 + time))

end Avp

/-- The bytes of a text in base64. A text that is not base64 stands for its own bytes. -/
def base64Bytes (fmt : TextFormats) (s : String) : List UInt8 :=
  (fmt.decodeBase64 s).getD s.toUTF8.data.toList

/-- The flags of an AVP, by its definition. -/
def AvpJson.flags (named : AvpJson) : UInt8 := if named.mandatory then 0x40 else 0x00

/-- The AVP of a type other than `Grouped` that a JSON value stands for, if it fits. -/
def scalarToAvp (fmt : TextFormats) (named : AvpJson) (value : Json) : OrPanic (Option Avp) :=
  let ofBytes (data : List UInt8) : Avp := .new named.code named.flags named.vendorId data
  match named.avpType, value with
  | .octetString, .string s => some (some (ofBytes (base64Bytes fmt s)))
  | .address, .string s =>
      some (some (.fromAddress fmt named.code named.flags named.vendorId s))
  | .time, .number num =>
      match num.asU64 with
      | some u =>
          (Avp.fromTime fmt.toFormats named.code named.flags named.vendorId u.toUInt32).map some
      | none => some none
  | .integer32, .number num | .enumerated, .number num =>
      some (num.asI64.map fun i => ofBytes (beBytes 4 (BitVec.ofInt 32 i).toNat))
  | .unsigned32, .number num => some (num.asU64.map fun u => ofBytes (toBeBytes u.toUInt32))
  | .integer64, .number num =>
      some (num.asI64.map fun i => ofBytes (beBytes 8 (BitVec.ofInt 64 i).toNat))
  | .unsigned64, .number num => some (num.asU64.map fun u => ofBytes (beBytes 8 u.toNat))
  | .float32, .number num =>
      some (some (ofBytes (beBytes 4 num.asF64.toFloat32.toBits.toNat)))
  | .float64, .number num => some (some (ofBytes (beBytes 8 num.asF64.toBits.toNat)))
  | .utf8String, .string s | .diameterIdentity, .string s | .diameterUri, .string s
  | .ipFilterRule, .string s => some (some (ofBytes s.toUTF8.data.toList))
  | _, _ => some none

/-- The code in a generic name. -/
def genericCode (name : String) : Option UInt32 :=
  match name.toList with
  | 'A' :: 'V' :: 'P' :: '-' :: code => parseU32 (String.ofList code)
  | _ => none

/-- The AVP under a name that is not in the dictionary. -/
def genericAvp (fmt : TextFormats) (name : String) (value : Json) : Option Avp :=
  match genericCode name, value with
  | some code, .string s => some (.new code 0x00 none (base64Bytes fmt s))
  | _, _ => none

mutual
/-- The AVP a name and a JSON value stand for, if they fit the dictionary. -/
def nameValueToAvp (fmt : TextFormats) (map : AvpMap) (name : String) (value : Json) :
    OrPanic (Option Avp) :=
  match value with
  | .object obj =>
      match map.getByName name with
      | some named =>
          if named.avpType = .grouped then
            (membersToAvps fmt map obj).map
              (·.map (Avp.fromGrouped named.code named.flags named.vendorId))
          else some none
      | none => some none
  | value =>
      match map.getByName name with
      | some named => scalarToAvp fmt named value
      | none => some (genericAvp fmt name value)
termination_by structural value
/-- The loop over the members of a group. It stops at one that does not fit. -/
def membersToAvps (fmt : TextFormats) (map : AvpMap) (obj : List (String × Json)) :
    OrPanic (Option (List Avp)) :=
  match obj with
  | [] => some (some [])
  | member :: rest =>
      match memberToAvp fmt map member with
      | none => none
      | some none => some none
      | some (some avp) => (membersToAvps fmt map rest).map (·.map (avp :: ·))
termination_by structural obj
/-- One member of a group. -/
def memberToAvp (fmt : TextFormats) (map : AvpMap) (member : String × Json) :
    OrPanic (Option Avp) :=
  match member with
  | (subName, subValue) => nameValueToAvp fmt map subName subValue
termination_by structural member
end

section
variable {fmt : TextFormats} {map : AvpMap} {name : String} {value : Json} {named : AvpJson}

@[simp] theorem memberToAvp_eq (member : String × Json) :
    memberToAvp fmt map member = nameValueToAvp fmt map member.1 member.2 := by
  rw [memberToAvp]

theorem nameValueToAvp_of_scalar (hnamed : map.getByName name = some named)
    (htype : named.avpType ≠ .grouped) :
    nameValueToAvp fmt map name value = scalarToAvp fmt named value := by
  obtain ⟨_, _, avpType, _, _⟩ := named
  cases value <;> simp only [nameValueToAvp, hnamed]
  rw [if_neg htype]
  cases avpType <;> rfl

theorem nameValueToAvp_of_grouped (hnamed : map.getByName name = some named)
    (htype : named.avpType = .grouped) (obj : List (String × Json)) :
    nameValueToAvp fmt map name (.object obj) = (membersToAvps fmt map obj).map
      (·.map (Avp.fromGrouped named.code named.flags named.vendorId)) := by
  rw [nameValueToAvp, hnamed]
  exact if_pos htype

/-- Only an object makes a group. -/
theorem nameValueToAvp_of_not_object (hnamed : map.getByName name = some named)
    (htype : named.avpType = .grouped) (hvalue : ∀ obj, value ≠ .object obj) :
    nameValueToAvp fmt map name value = some none := by
  obtain ⟨_, _, avpType, _, _⟩ := named
  obtain rfl : avpType = .grouped := htype
  cases value with
  | object obj => exact absurd rfl (hvalue obj)
  | _ => simp only [nameValueToAvp, hnamed, scalarToAvp]

theorem nameValueToAvp_of_unknown (hnone : map.getByName name = none) :
    nameValueToAvp fmt map name value = some (genericAvp fmt name value) := by
  cases value with
  | object obj =>
    rw [nameValueToAvp, hnone]
    unfold genericAvp
    split <;> simp_all
  | _ => simp only [nameValueToAvp, hnone]

end

/-! ### Commands -/

/-- The flag of a lower-case letter. -/
def CommandFlags.ofChar : Char → Option CommandFlags
  | 'r' => some .request
  | 'p' => some .proxiable
  | 'e' => some .error
  | 't' => some .potentiallyRetransmitted
  | _ => none

/-- The flags the letters of a text name, if there are any. -/
def CommandFlags.fromStr (fmt : TextFormats) (value : String) : Option (List CommandFlags) :=
  let flags := (fmt.toLowercase value).toList.filterMap ofChar
  if flags.isEmpty then none else some flags

/-- The bits of several flags over those of `result`. -/
def CommandFlags.orAll (result : UInt8) (flags : List CommandFlags) : UInt8 :=
  flags.foldl (fun result flag => result ||| flag.asU8) result

/-- The bits of the flags the letters of a text name, if there are any. -/
def CommandFlags.u8FromStr (fmt : TextFormats) (value : String) : Option UInt8 :=
  let result := orAll 0 ((fmt.toLowercase value).toList.filterMap ofChar)
  if result = 0 then none else some result

namespace CommandJson

/-- The flags of a definition. -/
def flags (d : CommandJson) : UInt8 :=
  (if d.request then 0x80 else 0) ||| (if d.proxiable then 0x40 else 0) |||
    (if d.error then 0x20 else 0)

/-- The place of an AVP in the order of the definition: `usize::MAX` if it is not in it. -/
def place (d : CommandJson) (avpMap : AvpMap) (avp : Avp) : Nat :=
  (d.avps.findIdx? fun name =>
    match avpMap.getByCode avp.code with
    | some avpInfo => avpInfo.name == name
    | none => false).getD (2 ^ 64 - 1)

/-- Bring the AVPs into the order of the definition. The sort is stable. -/
def sortAvps (d : CommandJson) (avpMap : AvpMap) (avps : List Avp) : List Avp :=
  avps.mergeSort fun a b => d.place avpMap a ≤ d.place avpMap b

end CommandJson

namespace Command

/-- The definition of the command an object names: by its code, or else by its name. -/
def getCommandDefine (fmt : TextFormats) (obj : List (String × Json)) (commandMap : CommandMap) :
    Option CommandJson :=
  match (Json.get obj "code").bind Json.asU64 with
  | some code =>
      let request := ((Json.get obj "request").bind Json.asBool).getD true
      commandMap.getByCode code.toUInt32 request
  | none =>
      match (Json.get obj "name").bind Json.asStr with
      | some name => commandMap.getByName fmt.toLowercase name
      | none => none

/-- Add the AVPs of one member. Those that do not fit are left out. -/
def readAvps (fmt : TextFormats) (avpMap : AvpMap) (avpName : String) (command : Command)
    (items : List Json) : OrPanic Command :=
  items.foldlM (fun (command : Command) item =>
    (nameValueToAvp fmt avpMap avpName item).map fun avp =>
      { command with avps := command.avps ++ avp.toList }) command

/-- Read one member of the object into the command. -/
def readMember (fmt : TextFormats) (avpMap : AvpMap) (command : Command) (member : String × Json) :
    OrPanic Command :=
  let (k, v) := member
  if k = "code" ∨ k = "name" then some command
  else if k = "application_id" then
    match v.asU64 with
    | some appId => some { command with applicationId := appId.toUInt32 }
    | none => some command
  else if k = "hop_by_hop_id" then
    some { command with hopByHopId := (v.asU64.getD 0).toUInt32 }
  else if k = "end_to_end_id" then
    some { command with endToEndId := (v.asU64.getD 0).toUInt32 }
  else if k = "callback-url" then some command
  else if k = "flags" then
    some { command with
      flags := CommandFlags.orAll command.flags
        ((CommandFlags.fromStr fmt (v.asStr.getD "")).getD []) }
  else readAvps fmt avpMap k command v.items

/-- The command a JSON value stands for. -/
def fromJsonValue (fmt : TextFormats) (commandMap : CommandMap) (avpMap : AvpMap) (v : Json) :
    OrPanic (Except String Command) :=
  match v with
  | .object obj =>
      match getCommandDefine fmt obj commandMap with
      | some commandDefine =>
          let command : Command :=
            { code := commandDefine.code, flags := 0, applicationId := commandDefine.applicationId
              hopByHopId := 0, endToEndId := 0, avps := [] }
          (obj.foldlM (readMember fmt avpMap) command).map fun command =>
            .ok { command with
              flags := commandDefine.flags ||| command.flags
              avps := commandDefine.sortAvps avpMap command.avps }
      | none => some (.error "Command not found in command map")
  | _ => some (.error "Invalid JSON format")

end Command

end RestDiameterBridge
