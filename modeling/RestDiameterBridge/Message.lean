import Mathlib.Data.List.Basic
import RestDiameterBridge.CommandCodec

/-!
# RestDiameterBridge.Message

Diameter messages as they stand on the wire, independently of the codec: the header, then
the AVPs one after another, each with its declared length, its data and zero bytes up to
the next multiple of four.

`decode_bytes` and `encode_command` connect them to the codec: a message that fits its
24-bit length field is read as `Message.command`, and that command is written as the same
bytes.
-/

namespace RestDiameterBridge

open Bytes

/-- One AVP of a message. The vendor id is there exactly if the vendor bit is set. -/
structure WireAvp where
  code : UInt32
  flags : UInt8
  vendorId : Option UInt32
  data : List UInt8
  vendor : (flags &&& 0x80 != 0) = vendorId.isSome

namespace WireAvp

/-- The bytes of the vendor field. -/
def vendorBytes (a : WireAvp) : List UInt8 :=
  match a.vendorId with
  | some vendorId => toBeBytes vendorId
  | none => []

/-- The declared length: header and data, without the padding. -/
def length (a : WireAvp) : Nat := 8 + a.vendorBytes.length + a.data.length

/-- The AVP with its padding. -/
def bytes (a : WireAvp) : List UInt8 :=
  toBeBytes a.code ++ [a.flags] ++ beBytes 3 a.length ++ a.vendorBytes ++ a.data ++
    List.replicate (padLen 4 a.data.length) 0

/-- The AVP as the codec holds it. -/
def toAvp (a : WireAvp) : Avp := ⟨a.code, a.flags, a.vendorId, some a.data, []⟩

theorem wellFormed_toAvp (a : WireAvp) : a.toAvp.WellFormed := .scalar a.vendor

theorem wire_toAvp (a : WireAvp) : a.toAvp.wire = a.toAvp := rfl

theorem length_bytes (a : WireAvp) : a.bytes.length = a.length + padLen 4 a.data.length := by
  simp only [bytes, length, List.length_append, length_toBeBytes, length_beBytes,
    List.length_singleton, List.length_replicate]

theorem toNat_headerLength (a : WireAvp) :
    (Avp.headerLength a.flags).toNat = 8 + a.vendorBytes.length := by
  unfold Avp.headerLength vendorBytes
  rw [a.vendor]
  cases a.vendorId <;> simp

/-- The codec writes the AVP as it stands. -/
theorem encode_toAvp (a : WireAvp) (hlt : a.length < 2 ^ 32) : a.toAvp.encode = a.bytes := by
  have htotal : a.toAvp.totalLength.toNat = a.length := by
    rw [a.wellFormed_toAvp.counted.total]
    show ((Avp.headerLength a.flags).toNat + a.data.length) % 2 ^ 32 = a.length
    rw [a.toNat_headerLength]
    exact Nat.mod_eq_of_lt hlt
  have hlength : (toBeBytes a.toAvp.totalLength).drop 1 = beBytes 3 a.length := by
    rw [← htotal]
    rfl
  have hheader : ∀ length, Avp.encodeHeader a.code a.flags a.vendorId length =
      toBeBytes a.code ++ [a.flags] ++ (toBeBytes length).drop 1 ++ a.vendorBytes := by
    intro length
    unfold Avp.encodeHeader vendorBytes
    rw [a.vendor]
    cases a.vendorId <;> rfl
  have hpadding : Avp.padding a.data = List.replicate (padLen 4 a.data.length) 0 := by
    unfold Avp.padding padLen
    by_cases h : a.data.length % 4 = 0 <;> simp [h]
  have hencode : a.toAvp.encode =
      Avp.encodeHeader a.code a.flags a.vendorId a.toAvp.totalLength ++ a.data ++
        Avp.padding a.data := by
    unfold toAvp
    rw [Avp.encode]
  rw [hencode, hheader, hlength, hpadding]
  rfl

end WireAvp

/-- A message. The version is 1 and the length follows from the AVPs. -/
structure Message where
  flags : UInt8
  code : UInt32
  applicationId : UInt32
  hopByHopId : UInt32
  endToEndId : UInt32
  avps : List WireAvp
  code_lt : code.toNat < 2 ^ 24

namespace Message

/-- The AVPs, one after another. -/
def body (m : Message) : List UInt8 := m.avps.flatMap WireAvp.bytes

/-- The length of the message. -/
def length (m : Message) : Nat := 20 + m.body.length

/-- The bytes of the message: version, length, flags, code, ids and AVPs. -/
def bytes (m : Message) : List UInt8 :=
  [1] ++ beBytes 3 m.length ++ [m.flags] ++ beBytes 3 m.code.toNat ++
    toBeBytes m.applicationId ++ toBeBytes m.hopByHopId ++ toBeBytes m.endToEndId ++ m.body

/-- The command the message stands for. -/
def command (m : Message) : Command where
  code := m.code
  flags := m.flags
  applicationId := m.applicationId
  hopByHopId := m.hopByHopId
  endToEndId := m.endToEndId
  avps := m.avps.map WireAvp.toAvp

section
variable {m : Message}

theorem length_avp_le {a : WireAvp} (ha : a ∈ m.avps) : a.length ≤ m.length := by
  have hle : a.bytes.length ≤ m.body.length := by
    obtain ⟨before, after, hsplit⟩ := List.append_of_mem ha
    rw [body, hsplit, List.flatMap_append, List.flatMap_cons, List.length_append,
      List.length_append]
    omega
  have hbytes := a.length_bytes
  have hlength : m.length = 20 + m.body.length := rfl
  omega

theorem flatMap_encode (hm : m.length < 2 ^ 32) : m.command.avps.flatMap Avp.encode = m.body := by
  rw [body, command, List.flatMap_map]
  refine List.flatMap_congr fun a ha => a.encode_toAvp ?_
  exact Nat.lt_of_le_of_lt (length_avp_le ha) hm

theorem wellFormed_avps : ∀ a ∈ m.command.avps, a.WellFormed := by
  intro a ha
  obtain ⟨a, -, rfl⟩ := List.mem_map.mp ha
  exact a.wellFormed_toAvp

/-- The codec counts the bytes of the AVPs. -/
theorem sum_totalLength (hm : m.length < 2 ^ 32) :
    (m.command.avps.map fun a => a.totalLengthIncludingPadding.toNat).sum = m.body.length := by
  have hbody := flatMap_encode hm
  rw [Command.sum_totalLengthIncludingPadding wellFormed_avps, hbody]
  rw [hbody]
  unfold length at hm
  omega

theorem wire_command : m.command.wire = m.command := by
  rw [Command.wire, command, List.map_map]
  rfl

theorem wellFormed_command (hm : m.length < 2 ^ 24) : m.command.WellFormed where
  code := m.code_lt
  avps := wellFormed_avps
  size := by
    rw [Command.length_encode, flatMap_encode (by omega)]
    exact hm

/-- The command is written as the message. -/
theorem encode_command (hm : m.length < 2 ^ 24) : m.command.encode = m.bytes := by
  have hbody := flatMap_encode (m := m) (by omega)
  have hsum := sum_totalLength (m := m) (by omega)
  have hlength : (20 + m.body.length).toUInt32.toNat = m.length := by
    rw [Nat.toUInt32_eq, UInt32.toNat_ofNat']
    unfold length at hm ⊢
    omega
  have hversion : (0x01000000 : UInt32) = (1 : UInt8).toUInt32 <<< 24 := by decide
  rw [Command.encode, hsum, hbody, hversion, toBeBytes_word, toBeBytes_word, hlength]
  rfl

/-- The message is read as the command. -/
theorem decode_bytes (hm : m.length < 2 ^ 24) : Command.decode m.bytes = .ok m.command := by
  rw [← encode_command hm, Command.decode_encode (wellFormed_command hm), wire_command]

end

end Message

end RestDiameterBridge
