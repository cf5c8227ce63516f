import RestDiameterBridge.Lib.Bytes

/-!
# RestDiameterBridge.Avp

The Diameter AVP (`src/avp.rs`): the in-memory value, its constructors and typed
accessors, and the wire encoder and decoder.

An AVP carries either raw `data` (`some`) or a list of member AVPs (`data = none`).
`Avp.encode` writes the header from `totalLength`, then the data or the members,
each padded to four bytes; `Avp.decode` reads one AVP from the front of a byte
string and always yields raw data, so a grouped AVP comes back as the bytes of its
members (`asGrouped` expands them on demand).

Lengths are `u32` in the source and `UInt32` here: sums wrap, as they do in a build
without overflow checks.
-/

namespace RestDiameterBridge

open Bytes

/-- Bits of the AVP flags octet. -/
inductive AvpFlags
  | vendorSpecific
  | mandatory
  deriving Repr, DecidableEq

/-- The flag's bit value. -/
def AvpFlags.asU8 : AvpFlags → UInt8
  | .vendorSpecific => 0x80
  | .mandatory => 0x40

/-- A Diameter attribute-value pair. -/
structure Avp where
  code : UInt32
  flags : UInt8
  vendorId : Option UInt32
  /-- Raw value bytes of a scalar AVP; absent in a group built from members. -/
  data : Option (List UInt8)
  /-- Members of a group; only read where `data` is absent. -/
  subAvps : List Avp
  deriving Repr

namespace Avp

/-! ### Constructors -/

/-- A scalar AVP over raw bytes. The vendor bit follows the vendor id. -/
def new (code : UInt32) (flags : UInt8) (vendorId : Option UInt32) (data : List UInt8) : Avp where
  code := code
  flags := if vendorId.isSome then flags ||| 0x80 else flags &&& 0x7F
  vendorId := vendorId
  data := some data
  subAvps := []

/-- A text AVP: the UTF-8 bytes of the string. -/
def fromUtf8String (code : UInt32) (flags : UInt8) (vendorId : Option UInt32)
    (value : String) : Avp :=
  new code flags vendorId value.toUTF8.data.toList

/-- An unsigned 32-bit AVP. -/
def fromUnsigned32 (code : UInt32) (flags : UInt8) (vendorId : Option UInt32)
    (value : UInt32) : Avp :=
  new code flags vendorId (toBeBytes value)

/-- A grouped AVP over its members. The flags gain the mandatory bit; the vendor bit
is left as the caller gave it. -/
def fromGrouped (code : UInt32) (flags : UInt8) (vendorId : Option UInt32)
    (subAvps : List Avp) : Avp where
  code := code
  flags := flags ||| 0x40
  vendorId := vendorId
  data := none
  subAvps := subAvps

/-! ### Accessors -/

/-- Is the vendor bit set? -/
def isVendorSpecific (a : Avp) : Bool := a.flags &&& 0x80 != 0

/-- Does the AVP hold members rather than raw data? -/
def isGrouped (a : Avp) : Bool := a.data.isNone && !a.subAvps.isEmpty

/-- The data as an unsigned 32-bit number, if it is exactly four bytes. -/
def asUnsigned32 (a : Avp) : Option UInt32 :=
  match a.data with
  | some data => if data.length = 4 then some (fromBeBytes data) else none
  | none => none

/-- The data as text, if it is valid UTF-8. -/
def asUtf8String (a : Avp) : Option String :=
  match a.data with
  | some data => String.fromUTF8? ⟨data.toArray⟩
  | none => none

@[simp] theorem asUtf8String_fromUtf8String (code : UInt32) (flags : UInt8)
    (vendorId : Option UInt32) (value : String) :
    (fromUtf8String code flags vendorId value).asUtf8String = some value := by
  have hbytes : (⟨value.toUTF8.data.toList.toArray⟩ : ByteArray) = value.toUTF8 := by simp
  show String.fromUTF8? ⟨value.toUTF8.data.toList.toArray⟩ = some value
  rw [hbytes]
  exact dif_pos value.isValidUTF8

/-- A text is read from bytes if these are its own. -/
theorem fromUTF8_eq_some_iff {data : List UInt8} {s : String} :
    String.fromUTF8? ⟨data.toArray⟩ = some s ↔ data = s.toUTF8.data.toList := by
  constructor
  · intro h
    unfold String.fromUTF8? at h
    split at h
    · rw [← Option.some.inj h]
      rfl
    · cases h
  · intro h
    subst h
    exact asUtf8String_fromUtf8String 0 0 none s

/-- Replace the data by the bytes of a number. -/
def setUnsigned32 (a : Avp) (value : UInt32) : Avp := { a with data := some (toBeBytes value) }

/-- Replace the data by the bytes of a text. -/
def setUtf8String (a : Avp) (value : String) : Avp :=
  { a with data := some value.toUTF8.data.toList }

/-! ### Lengths -/

/-- Bytes of the header: code, flags, length, and the vendor field if its bit is set. -/
def headerLength (flags : UInt8) : UInt32 := 8 + if flags &&& 0x80 != 0 then 4 else 0

/-- Round a length up to four bytes. -/
def alignLength (length : UInt32) : UInt32 :=
  let remain := length % 4
  if remain = 0 then length else length + (4 - remain)

mutual
/-- The encoded length of the AVP, header and value, without its own padding. -/
def totalLength : Avp → UInt32
  | ⟨_, flags, _, some data, _⟩ =>
      data.length.toUInt32 + 8 + if flags &&& 0x80 != 0 then 4 else 0
  | ⟨_, flags, _, none, subAvps⟩ =>
      sumTotalLength subAvps + 8 + if flags &&& 0x80 != 0 then 4 else 0
/-- The padded lengths of the members, summed. -/
def sumTotalLength : List Avp → UInt32
  | [] => 0
  | a :: as => alignLength a.totalLength + sumTotalLength as
end

/-- `total_length_including_padding` of the source. -/
def totalLengthIncludingPadding (a : Avp) : UInt32 := alignLength a.totalLength

/-! ### Encoding -/

/-- Zero bytes up to the next multiple of four. -/
def padding (data : List UInt8) : List UInt8 :=
  if data.length % 4 ≠ 0 then List.replicate (4 - data.length % 4) 0 else []

/-- The header: code, flags, the low three length bytes, and the vendor id where both
the bit and the id are present. -/
def encodeHeader (code : UInt32) (flags : UInt8) (vendorId : Option UInt32)
    (length : UInt32) : List UInt8 :=
  toBeBytes code ++ [flags] ++ (toBeBytes length).drop 1 ++
    (if flags &&& 0x80 != 0 then
      match vendorId with
      | some vendorId => toBeBytes vendorId
      | none => []
    else [])

mutual
/-- The wire form of the AVP. -/
def encode : Avp → List UInt8
  | a@⟨code, flags, vendorId, some data, _⟩ =>
      encodeHeader code flags vendorId a.totalLength ++ data ++ padding data
  | a@⟨code, flags, vendorId, none, subAvps⟩ =>
      encodeHeader code flags vendorId a.totalLength ++ encodeSubAvps subAvps
/-- The wire forms of the members, one after another, each padded again (a no-op:
every wire form is already a multiple of four). -/
def encodeSubAvps : List Avp → List UInt8
  | [] => []
  | a :: as => a.encode ++ padding a.encode ++ encodeSubAvps as
end

/-! ### Decoding -/

/-- Read the header of the AVP in front of `buffer`: code, flags, declared length and
vendor id. Every index is inside the buffer by the length checks before it. -/
def decodeHeader (buffer : List UInt8) :
    Option (UInt32 × UInt8 × UInt32 × Option UInt32) :=
  if h : buffer.length < 8 then none
  else
    let code := fromBeBytes [buffer[0], buffer[1], buffer[2], buffer[3]]
    let flags := buffer[4]
    let length := fromBeBytes [0, buffer[5], buffer[6], buffer[7]]
    if flags &&& 0x80 != 0 then
      if h' : buffer.length < 12 then none
      else
        let vendorId := fromBeBytes [buffer[8], buffer[9], buffer[10], buffer[11]]
        if length < headerLength flags then none
        else some (code, flags, length, some vendorId)
    else
      if length < headerLength flags then none
      else some (code, flags, length, none)

/-- Read one AVP from the front of `data`; its value is the bytes between the header
and the declared length. -/
def decode (data : List UInt8) : Except String Avp :=
  match decodeHeader data with
  | some (code, flags, length, vendorId) =>
      if data.length < length.toNat then .error "Data length mismatch"
      else
        let dataStart := (headerLength flags).toNat
        let dataEnd := length.toNat
        .ok (Avp.new code flags vendorId ((data.take dataEnd).drop dataStart))
  | none => .error "Failed to decode AVP header"

end Avp

end RestDiameterBridge
