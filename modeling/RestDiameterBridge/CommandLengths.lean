import RestDiameterBridge.CommandFromJsonTotal
import RestDiameterBridge.CommandLayout

/-!
# RestDiameterBridge.CommandLengths

The length fields of a command made from JSON.

`total_length` counts in 32 bits, and the encoder writes 24 of them. Nothing bounds what is
read from JSON, so `fromJsonValue_trueLengths_iff` says for which commands every length field,
at every depth, is the length of what it stands for: those of less than 2 ^ 24 bytes.
-/

namespace RestDiameterBridge

open Bytes
open Avp (headerLength new_vendorBit padLen_header)

namespace Avp

mutual
/-- Bytes of header and value. -/
def wireSize : Avp → Nat
  | ⟨_, flags, _, some data, _⟩ => (headerLength flags).toNat + data.length
  | ⟨_, flags, _, none, subAvps⟩ => (headerLength flags).toNat + wireSizes subAvps
/-- Bytes of several AVPs, each with its padding. -/
def wireSizes : List Avp → Nat
  | [] => 0
  | a :: as => a.wireSize + padLen 4 a.wireSize + wireSizes as
end

/-- The length field of the AVP counts its header and its value, and so do those of the
AVPs it is written from. -/
inductive TrueLengths : Avp → Prop
  | scalar {code flags vendorId data subAvps} :
      avpLength (encode ⟨code, flags, vendorId, some data, subAvps⟩) =
        wireSize ⟨code, flags, vendorId, some data, subAvps⟩ →
      TrueLengths ⟨code, flags, vendorId, some data, subAvps⟩
  | grouped {code flags vendorId subAvps} :
      avpLength (encode ⟨code, flags, vendorId, none, subAvps⟩) =
        wireSize ⟨code, flags, vendorId, none, subAvps⟩ →
      (∀ a ∈ subAvps, TrueLengths a) → TrueLengths ⟨code, flags, vendorId, none, subAvps⟩

/-- Where the vendor bit is set there is a vendor id, at every depth of the tree the
encoder reads. -/
inductive Vendored : Avp → Prop
  | scalar {code flags vendorId data subAvps} :
      ((flags &&& 0x80 != 0) = true → Option.isSome (α := UInt32) vendorId = true) →
      Vendored ⟨code, flags, vendorId, some data, subAvps⟩
  | grouped {code flags vendorId subAvps} :
      ((flags &&& 0x80 != 0) = true → Option.isSome (α := UInt32) vendorId = true) →
      (∀ a ∈ subAvps, Vendored a) → Vendored ⟨code, flags, vendorId, none, subAvps⟩

section
variable {a : Avp} {as : List Avp}

theorem Vendored.counted (h : a.Vendored) : a.Counted := by
  induction h with
  | scalar hv => exact .scalar hv
  | grouped hv _ ih => exact .grouped hv ih

theorem le_wireSizes (h : a ∈ as) : a.wireSize ≤ wireSizes as := by
  induction as with
  | nil => cases h
  | cons b as ih =>
    rw [wireSizes]
    rcases List.mem_cons.mp h with rfl | h
    · omega
    · have := ih h
      omega

/-- The members take up the bytes of their wire forms. -/
theorem wireSizes_of_forall
    (h : ∀ a ∈ as, a.Counted ∧ a.wireSize = (headerLength a.flags).toNat + a.payload.length) :
    wireSizes as = (as.flatMap encode).length := by
  induction as with
  | nil => rfl
  | cons a as ih =>
    rw [List.forall_mem_cons] at h
    obtain ⟨⟨hcounted, hsize⟩, hrest⟩ := h
    rw [wireSizes, hsize, padLen_header, ih hrest, List.flatMap_cons, List.length_append,
      hcounted.length_encode]

theorem Vendored.wireSize_eq (h : a.Vendored) :
    a.wireSize = (headerLength a.flags).toNat + a.payload.length := by
  induction h with
  | scalar => rw [wireSize, payload]
  | grouped _ hmembers ih =>
    rw [wireSize, payload, wireSizes_of_forall fun a ha => ⟨(hmembers a ha).counted, ih a ha⟩]

theorem wireSizes_eq (h : ∀ a ∈ as, a.Vendored) : wireSizes as = (as.flatMap encode).length :=
  wireSizes_of_forall fun a ha => ⟨(h a ha).counted, (h a ha).wireSize_eq⟩

/-- The length field holds 24 bits of the length. -/
theorem Vendored.avpLength_encode (h : a.Vendored) :
    avpLength a.encode = a.wireSize % 2 ^ 24 := by
  have hfield : (a.encode.drop 5).take 3 = (toBeBytes a.totalLength).drop 1 := by
    rw [encode_eq]
    unfold encodeHeader
    simp only [List.append_assoc]
    rfl
  rw [avpLength, hfield, h.wireSize_eq]
  refine (beValue_beBytes 3 _).trans ?_
  rw [h.counted.total]
  omega

theorem Vendored.trueLengths_iff (h : a.Vendored) : a.TrueLengths ↔ a.wireSize < 2 ^ 24 := by
  constructor
  · intro htrue
    have hlength : avpLength a.encode = a.wireSize := by
      cases htrue with
      | scalar hlength => exact hlength
      | grouped hlength _ => exact hlength
    have hfield := h.avpLength_encode
    omega
  · intro hlt
    induction h with
    | scalar hv =>
      exact .scalar ((Vendored.scalar hv).avpLength_encode.trans (Nat.mod_eq_of_lt hlt))
    | grouped hv hmembers ih =>
      refine .grouped ((Vendored.grouped hv hmembers).avpLength_encode.trans
        (Nat.mod_eq_of_lt hlt)) fun a ha => ih a ha ?_
      have := le_wireSizes ha
      rw [wireSize] at hlt
      omega

end

end Avp

/-! ### AVPs made from JSON -/

section
variable {fmt : TextFormats} {commandMap : CommandMap} {map : AvpMap} {name : String}
  {value json : Json} {a : Avp} {c : Command}

theorem vendored_new (code : UInt32) (flags : UInt8) (vendorId : Option UInt32)
    (data : List UInt8) : (Avp.new code flags vendorId data).Vendored :=
  .scalar fun hbit => (new_vendorBit code flags vendorId data).symm.trans hbit

theorem vendored_of_nameValueToAvp (h : nameValueToAvp fmt map name value = some (some a)) :
    a.Vendored := by
  induction value using Json.objectInduction generalizing name a with
  | object obj ih =>
    cases made_of_nameValueToAvp h with
    | scalar => exact vendored_new _ _ _ _
    | @group _ named subAvps _ _ hmembers =>
      have hflags := fromGrouped_flags named.code named named.vendorId subAvps
      refine .grouped (fun hbit => ?_) ?_
      · rw [show named.flags ||| 0x40 = 0x40 from hflags] at hbit
        cases hbit
      · clear h hflags
        induction hmembers with
        | nil => simp
        | @cons m sub obj subAvps hm _ ihrest =>
          exact List.forall_mem_cons.mpr ⟨ih m List.mem_cons_self hm,
            ihrest fun m' hm' => ih m' (List.mem_cons_of_mem _ hm')⟩
  | other value hobj =>
    cases made_of_nameValueToAvp h with
    | scalar => exact vendored_new _ _ _ _
    | group => exact absurd rfl (hobj _)
    | generic => exact vendored_new _ _ _ _

theorem vendored_of_fromJsonValue
    (h : Command.fromJsonValue fmt commandMap map json = some (.ok c)) :
    ∀ a ∈ c.avps, a.Vendored := by
  cases json with
  | object obj =>
    rw [forall_avps_iff h]
    intro m _ _ item _ a ha
    rw [itemAvps, Option.mem_toList] at ha
    cases hmade : nameValueToAvp fmt map m.1 item with
    | none =>
      rw [hmade] at ha
      cases ha
    | some r =>
      rw [hmade] at ha
      exact vendored_of_nameValueToAvp (hmade.trans (congrArg some ha))
  | _ => cases Option.some.inj h

/-! ### The command -/

namespace Command

/-- Bytes of the command. -/
def wireSize (c : Command) : Nat := 20 + Avp.wireSizes c.avps

/-- The length field of the message counts the bytes that are returned, and the length
field of every AVP its header and its value. -/
structure TrueLengths (c : Command) : Prop where
  message : CommandBuffer.declaredLength c.encode = c.encode.length
  avps : ∀ a ∈ c.avps, a.TrueLengths

theorem length_encode_eq_wireSize (h : ∀ a ∈ c.avps, a.Vendored) :
    c.encode.length = c.wireSize := by
  rw [length_encode, wireSize, Avp.wireSizes_eq h]

theorem paddedLength_mod {avps : List Avp} (h : ∀ a ∈ avps, a.Vendored) :
    paddedLength avps % 2 ^ 32 = Avp.wireSizes avps % 2 ^ 32 := by
  rw [Avp.wireSizes_eq h]
  induction avps with
  | nil => rfl
  | cons a avps ih =>
    rw [List.forall_mem_cons] at h
    have ha := h.1.counted.padded
    have hrest := ih h.2
    have hsum : paddedLength (a :: avps) =
        a.totalLengthIncludingPadding.toNat + paddedLength avps := List.sum_cons
    rw [hsum, List.flatMap_cons, List.length_append]
    omega

/-- The length field holds 24 bits of the length. -/
theorem declaredLength_encode_of_vendored (h : ∀ a ∈ c.avps, a.Vendored) :
    CommandBuffer.declaredLength c.encode = c.wireSize % 2 ^ 24 := by
  obtain ⟨l1, l2, l3, hl, hlv⟩ :=
    exists_toBeBytes_word 1 (20 + paddedLength c.avps).toUInt32
  have hversion : (0x01000000 : UInt32) = (1 : UInt8).toUInt32 <<< 24 := by decide
  have hbytes : ∃ rest, c.encode = [1, l1, l2, l3] ++ rest := by
    rw [← hversion, paddedLength] at hl
    simp only [encode, hl, List.append_assoc]
    exact ⟨_, rfl⟩
  obtain ⟨rest, hrest⟩ := hbytes
  have hmod := paddedLength_mod h
  rw [hrest]
  refine Eq.trans hlv ?_
  rw [Nat.toUInt32_eq, UInt32.toNat_ofNat', wireSize]
  omega

theorem trueLengths_iff_of_vendored (h : ∀ a ∈ c.avps, a.Vendored) :
    c.TrueLengths ↔ c.wireSize < 2 ^ 24 := by
  have hlength := length_encode_eq_wireSize h
  have hfield := declaredLength_encode_of_vendored h
  constructor
  · intro htrue
    have hmessage := htrue.message
    omega
  · intro hlt
    refine ⟨by omega, fun a ha => (h a ha).trueLengths_iff.mpr ?_⟩
    have hle := Avp.le_wireSizes ha
    rw [wireSize] at hlt
    omega

end Command

/-- **Which commands have true lengths.** Of a command made from JSON every length field is
the length of what it stands for exactly if the command is shorter than 2 ^ 24 bytes. -/
theorem fromJsonValue_trueLengths_iff
    (h : Command.fromJsonValue fmt commandMap map json = some (.ok c)) :
    c.TrueLengths ↔ c.wireSize < 2 ^ 24 :=
  Command.trueLengths_iff_of_vendored (vendored_of_fromJsonValue h)

end

/-! ### A short and a long name -/

/-- An accounting request for a user. -/
def userRequest (name : String) : Json :=
  .object [("code", .ofInt 271), ("User-Name", .string name)]

/-- The command of the request. -/
def userCommand (name : String) : Command :=
  { code := 271, flags := 0xC0, applicationId := 0, hopByHopId := 0, endToEndId := 0
    avps := [.new 1 0x40 none name.toUTF8.data.toList] }

theorem fromJsonValue_userRequest (overflowChecks : Bool) (name : String) :
    Command.fromJsonValue (standardTexts overflowChecks)
        (.new (standardTexts overflowChecks).toLowercase []) (.new []) (userRequest name) =
      some (.ok (userCommand name)) := by
  have hdefine : Command.getCommandDefine (standardTexts overflowChecks)
      [("code", .ofInt 271), ("User-Name", .string name)]
      (.new (standardTexts overflowChecks).toLowercase []) = some standardCommands[2] := rfl
  have hread : [("code", Json.ofInt 271), ("User-Name", Json.string name)].foldlM
      (Command.readMember (standardTexts overflowChecks) (.new []))
      ⟨standardCommands[2].code, 0, standardCommands[2].applicationId, 0, 0, []⟩ =
        some { userCommand name with flags := 0 } := rfl
  have hsort : standardCommands[2].sortAvps (.new []) (userCommand name).avps =
      (userCommand name).avps := List.mergeSort_singleton _
  rw [userRequest, Command.fromJsonValue, hdefine]
  simp only [hread, Option.map_some]
  rw [hsort]
  rfl

theorem fromJsonValue_trueLengths_iff_bob : (userCommand "bob").TrueLengths :=
  (fromJsonValue_trueLengths_iff (fromJsonValue_userRequest false "bob")).mpr (by decide +kernel)

/-- A text has a byte for every character at least. -/
theorem length_le_utf8 (cs : List Char) :
    cs.length ≤ (String.ofList cs).toUTF8.data.toList.length := by
  have hsize : ∀ b : ByteArray, b.data.toList.length = b.size := fun b => rfl
  induction cs with
  | nil => exact Nat.zero_le _
  | cons c cs ih =>
    have hcons : (String.ofList (c :: cs)).toUTF8 = [c].utf8Encode ++ (String.ofList cs).toUTF8 :=
      List.utf8Encode_cons
    have hc : [c].utf8Encode.size = c.utf8Size := String.utf8ByteSize_singleton
    have hpos := c.utf8Size_pos
    rw [hsize] at ih ⊢
    rw [hcons, ByteArray.size_append, hc, List.length_cons]
    omega

theorem le_wireSize_userCommand (name : String) :
    name.toUTF8.data.toList.length ≤ (userCommand name).wireSize := by
  have hle := Avp.le_wireSizes (List.mem_singleton_self
    (Avp.new 1 0x40 none name.toUTF8.data.toList))
  have havp : (Avp.new 1 0x40 none name.toUTF8.data.toList).wireSize =
      8 + name.toUTF8.data.toList.length := rfl
  have hsize : (userCommand name).wireSize =
      20 + Avp.wireSizes [.new 1 0x40 none name.toUTF8.data.toList] := rfl
  omega

/-- A name of `n` characters. -/
def longName (n : Nat) : String := String.ofList (List.replicate n 'a')

theorem le_length_longName (n : Nat) : n ≤ (longName n).toUTF8.data.toList.length := by
  have hname := length_le_utf8 (List.replicate n 'a')
  rwa [List.length_replicate] at hname

/-- A name of 2 ^ 24 characters makes a frame whose length has wrapped. -/
theorem not_trueLengths_longName :
    Command.fromJsonValue (standardTexts false) (.new (standardTexts false).toLowercase []) (.new [])
        (userRequest (longName (2 ^ 24))) = some (.ok (userCommand (longName (2 ^ 24)))) ∧
      CommandBuffer.declaredLength (userCommand (longName (2 ^ 24))).encode <
        (userCommand (longName (2 ^ 24))).encode.length ∧
      ¬(userCommand (longName (2 ^ 24))).TrueLengths := by
  have hsize := Nat.le_trans (le_length_longName (2 ^ 24)) (le_wireSize_userCommand _)
  have hvendored := vendored_of_fromJsonValue (fromJsonValue_userRequest false (longName (2 ^ 24)))
  have hlength := Command.length_encode_eq_wireSize hvendored
  have hfield := Command.declaredLength_encode_of_vendored hvendored
  refine ⟨fromJsonValue_userRequest false (longName (2 ^ 24)), by omega, fun htrue => ?_⟩
  exact Nat.not_lt.mpr hsize ((Command.trueLengths_iff_of_vendored hvendored).mp htrue)

end RestDiameterBridge
