import Mathlib.Data.List.AList
import RestDiameterBridge.Lib.Latest

/-!
# RestDiameterBridge.Dictionary

The AVP dictionary (`AvpType`, `AvpJson`, `AvpMap` in `src/avp.rs`): the built-in
definitions, and those of the configuration over them. A later definition replaces an
earlier one of its code, and one of its name, separately.
-/

namespace RestDiameterBridge

/-- The data types of AVPs. -/
inductive AvpType
  | address
  | enumerated
  | octetString
  | time
  | utf8String
  | diameterIdentity
  | diameterUri
  | ipFilterRule
  | integer32
  | unsigned32
  | integer64
  | unsigned64
  | float32
  | float64
  | grouped
  deriving Repr, DecidableEq

/-- One AVP definition. -/
structure AvpJson where
  name : String
  code : UInt32
  avpType : AvpType
  mandatory : Bool
  vendorId : Option UInt32
  deriving Repr, DecidableEq

/-- The built-in definitions. -/
def standardAvpJson : List AvpJson := [
  ⟨"Acct-Interim-Interval", 85, .unsigned32, true, none⟩,
  ⟨"Accounting-Realtime-Required", 483, .enumerated, true, none⟩,
  ⟨"Acct-Multi-Session-Id", 50, .utf8String, true, none⟩,
  ⟨"Accounting-Record-Number", 485, .unsigned32, true, none⟩,
  ⟨"Accounting-Record-Type", 480, .enumerated, true, none⟩,
  ⟨"Acct-Session-Id", 44, .utf8String, true, none⟩,
  ⟨"Accounting-Sub-Session-Id", 287, .unsigned64, true, none⟩,
  ⟨"Acct-Application-Id", 259, .unsigned32, true, none⟩,
  ⟨"Auth-Application-Id", 258, .unsigned32, true, none⟩,
  ⟨"Auth-Request-Type", 274, .enumerated, true, none⟩,
  ⟨"Authorization-Lifetime", 291, .unsigned32, true, none⟩,
  ⟨"Auth-Grace-Period", 276, .unsigned32, true, none⟩,
  ⟨"Auth-Session-State", 277, .enumerated, true, none⟩,
  ⟨"Re-Auth-Request-Type", 285, .enumerated, true, none⟩,
  ⟨"Class", 25, .octetString, false, none⟩,
  ⟨"Destination-Host", 293, .diameterIdentity, true, none⟩,
  ⟨"Destination-Realm", 283, .diameterIdentity, true, none⟩,
  ⟨"Disconnect-Cause", 273, .enumerated, true, none⟩,
  ⟨"Error-Message", 281, .utf8String, false, none⟩,
  ⟨"Error-Reporting-Host", 294, .diameterIdentity, false, none⟩,
  ⟨"Event-Timestamp", 55, .time, true, none⟩,
  ⟨"Experimental-Result", 297, .grouped, true, none⟩,
  ⟨"Experimental-Result-Code", 298, .unsigned32, true, none⟩,
  ⟨"Failed-AVP", 279, .grouped, true, none⟩,
  ⟨"Firmware-Revision", 267, .unsigned32, false, none⟩,
  ⟨"Host-IP-Address", 257, .address, true, none⟩,
  ⟨"Inband-Security-Id", 299, .unsigned32, true, none⟩,
  ⟨"Multi-Round-Time-Out", 272, .unsigned32, true, none⟩,
  ⟨"Origin-Host", 264, .diameterIdentity, true, none⟩,
  ⟨"Origin-Realm", 296, .diameterIdentity, true, none⟩,
  ⟨"Origin-State-Id", 278, .unsigned32, true, none⟩,
  ⟨"Product-Name", 269, .utf8String, false, none⟩,
  ⟨"Proxy-Host", 280, .diameterIdentity, true, none⟩,
  ⟨"Proxy-Info", 284, .grouped, true, none⟩,
  ⟨"Proxy-State", 33, .octetString, true, none⟩,
  ⟨"Redirect-Host", 292, .diameterIdentity, true, none⟩,
  ⟨"Redirect-Host-Usage", 261, .enumerated, true, none⟩,
  ⟨"Redirect-Max-Cache-Time", 262, .unsigned32, true, none⟩,
  ⟨"Result-Code", 268, .unsigned32, true, none⟩,
  ⟨"Route-Record", 282, .diameterIdentity, true, none⟩,
  ⟨"Session-Id", 263, .utf8String, true, none⟩,
  ⟨"Session-Timeout", 27, .unsigned32, true, none⟩,
  ⟨"Session-Binding", 270, .unsigned32, true, none⟩,
  ⟨"Session-Server-Failover", 271, .enumerated, true, none⟩,
  ⟨"Supported-Vendor-Id", 265, .unsigned32, true, none⟩,
  ⟨"Termination-Cause", 295, .enumerated, true, none⟩,
  ⟨"User-Name", 1, .utf8String, true, none⟩,
  ⟨"Vendor-Id", 266, .unsigned32, true, none⟩,
  ⟨"Vendor-Specific-Application-Id", 260, .grouped, true, none⟩]

/-- The definitions by code and by name. -/
structure AvpMap where
  codeToAvp : AList fun _ : UInt32 => AvpJson
  nameToAvp : AList fun _ : String => AvpJson

namespace AvpMap

open Latest

/-- Add a definition. -/
def addAvp (map : AvpMap) (avp : AvpJson) : AvpMap :=
  { codeToAvp := map.codeToAvp.insert avp.code avp
    nameToAvp := map.nameToAvp.insert avp.name avp }

/-- The built-in definitions and the given ones. -/
def new (avps : List AvpJson) : AvpMap :=
  (standardAvpJson ++ avps).foldl addAvp { codeToAvp := ∅, nameToAvp := ∅ }

def getByCode (map : AvpMap) (code : UInt32) : Option AvpJson := map.codeToAvp.lookup code

def getByName (map : AvpMap) (name : String) : Option AvpJson := map.nameToAvp.lookup name

/-- A code belongs to its last definition. -/
theorem getByCode_new (avps : List AvpJson) (code : UInt32) :
    (AvpMap.new avps).getByCode code = latest AvpJson.code code (standardAvpJson ++ avps) := by
  refine (lookup_foldl getByCode (fun map avp code => ?_) _ _ _).trans (Option.or_none)
  by_cases hcode : code = avp.code
  · rw [if_pos hcode, hcode]
    exact AList.lookup_insert _
  · rw [if_neg hcode]
    exact AList.lookup_insert_ne hcode

/-- A name belongs to its last definition. -/
theorem getByName_new (avps : List AvpJson) (name : String) :
    (AvpMap.new avps).getByName name = latest AvpJson.name name (standardAvpJson ++ avps) := by
  refine (lookup_foldl getByName (fun map avp name => ?_) _ _ _).trans (Option.or_none)
  by_cases hname : name = avp.name
  · rw [if_pos hname, hname]
    exact AList.lookup_insert _
  · rw [if_neg hname]
    exact AList.lookup_insert_ne hname

/-- The name under which AVPs of a code appear in JSON. -/
def jsonName (map : AvpMap) (code : UInt32) : String :=
  match map.getByCode code with
  | some avp => avp.name
  | none => s!"AVP-{code}"

end AvpMap

end RestDiameterBridge
