import RestDiameterBridge.Avp

/-!
# RestDiameterBridge.AvpCodec

Correctness of the AVP codec: the encoder, the length computation and the decoder
of `RestDiameterBridge.Avp` agree on every AVP tree.

Three facts carry the round trip, each about one of the three functions:

* `encode_eq` — the wire form is header, payload, zero padding, for scalars and
  groups alike; `length_encode_mod` makes the padding between members a no-op;
* `toNat_totalLength` — the `u32` length computation does not wrap below `2 ^ 32`
  bytes, and its rounding is the length of the wire form;
* `decode_encode` — decoding the wire form, with anything behind it, gives `wire a`:
  the same header with the payload as raw data.
-/

namespace RestDiameterBridge

open Bytes

namespace Avp

/-! ### Well-formed AVPs -/

/-- The vendor bit is set exactly when a vendor id is present, at every depth of the
tree the encoder reads. -/
inductive WellFormed : Avp → Prop
  | scalar {code flags vendorId data subAvps} :
      ((flags &&& 0x80 != 0) = vendorId.isSome) →
      WellFormed ⟨code, flags, vendorId, some data, subAvps⟩
  | grouped {code flags vendorId subAvps} :
      ((flags &&& 0x80 != 0) = vendorId.isSome) →
      (∀ a ∈ subAvps, WellFormed a) →
      WellFormed ⟨code, flags, vendorId, none, subAvps⟩

theorem WellFormed.vendor {a : Avp} (h : WellFormed a) :
    (a.flags &&& 0x80 != 0) = a.vendorId.isSome := by
  cases h with
  | scalar hv => exact hv
  | grouped hv _ => exact hv

/-- The value bytes: raw data, or the wire forms of the members one after another. -/
def payload (a : Avp) : List UInt8 :=
  match a.data with
  | some data => data
  | none => a.subAvps.flatMap encode

/-- The AVP as a peer sees it: the same header over raw payload bytes. -/
def wire (a : Avp) : Avp := { a with data := some a.payload, subAvps := [] }

theorem wire_wellFormed {a : Avp} (h : WellFormed a) : WellFormed a.wire :=
  .scalar h.vendor

/-! ### The flags octet -/

/-- A property of all octets is checked on the 256 of them. -/
theorem forall_uint8 {p : UInt8 → Prop} (h : ∀ n < 256, p (UInt8.ofNat n)) (f : UInt8) : p f := by
  have := h f.toNat (UInt8.toNat_lt f)
  rwa [UInt8.ofNat_toNat] at this

theorem or_vendorBit {f : UInt8} : (f &&& 0x80 != 0) = true → f ||| 0x80 = f :=
  forall_uint8 (p := fun f => (f &&& 0x80 != 0) = true → f ||| 0x80 = f) (by decide +kernel) f

theorem and_not_vendorBit {f : UInt8} : (f &&& 0x80 != 0) = false → f &&& 0x7F = f :=
  forall_uint8 (p := fun f => (f &&& 0x80 != 0) = false → f &&& 0x7F = f) (by decide +kernel) f

/-- `new` leaves the flags alone when the vendor bit already follows the vendor id. -/
theorem new_eq {code flags vendorId data}
    (h : (flags &&& 0x80 != 0) = Option.isSome (α := UInt32) vendorId) :
    new code flags vendorId data = ⟨code, flags, vendorId, some data, []⟩ := by
  cases vendorId with
  | none => simp [new, and_not_vendorBit h]
  | some v => simp [new, or_vendorBit h]

theorem new_vendorBit (code : UInt32) (flags : UInt8) (vendorId : Option UInt32)
    (data : List UInt8) :
    ((new code flags vendorId data).flags &&& 0x80 != 0) = vendorId.isSome := by
  cases vendorId with
  | none =>
    exact forall_uint8 (p := fun f => (f &&& 0x7F &&& 0x80 != 0) = false) (by decide +kernel) flags
  | some v =>
    exact forall_uint8 (p := fun f => ((f ||| 0x80) &&& 0x80 != 0) = true) (by decide +kernel) flags

theorem new_headerLength (code : UInt32) (flags : UInt8) (vendorId : Option UInt32)
    (data : List UInt8) :
    (headerLength (new code flags vendorId data).flags).toNat =
      if vendorId.isSome then 12 else 8 := by
  rw [headerLength, new_vendorBit]
  cases vendorId <;> rfl

/-! ### Shape of the wire form -/

theorem length_padding (data : List UInt8) : (padding data).length = padLen 4 data.length := by
  unfold padding padLen
  by_cases h : data.length % 4 = 0 <;> simp [h]

theorem padding_eq_nil {data : List UInt8} (h : data.length % 4 = 0) : padding data = [] := by
  simp [padding, h]

theorem length_append_padding_mod (data : List UInt8) :
    (data ++ padding data).length % 4 = 0 := by
  rw [List.length_append, length_padding]
  exact add_padLen_mod (by omega) _

theorem length_encodeHeader (code flags vendorId length) :
    (encodeHeader code flags vendorId length).length =
      8 + if (flags &&& 0x80 != 0) && vendorId.isSome then 4 else 0 := by
  cases vendorId <;> by_cases hf : (flags &&& 0x80 != 0) = true <;> simp [encodeHeader, hf]

theorem length_encodeHeader_mod (code flags vendorId length) :
    (encodeHeader code flags vendorId length).length % 4 = 0 := by
  rw [length_encodeHeader]
  split <;> rfl

theorem length_encodeSubAvps_mod (as : List Avp) : (encodeSubAvps as).length % 4 = 0 := by
  induction as with
  | nil => rfl
  | cons a as ih =>
    have ha := length_append_padding_mod a.encode
    rw [encodeSubAvps, List.length_append]
    omega

/-- Every wire form is a multiple of four bytes. -/
theorem length_encode_mod (a : Avp) : a.encode.length % 4 = 0 := by
  obtain ⟨code, flags, vendorId, data, subAvps⟩ := a
  cases data with
  | some data =>
    have hh := length_encodeHeader_mod code flags vendorId
      (totalLength ⟨code, flags, vendorId, some data, subAvps⟩)
    have hd := length_append_padding_mod data
    rw [encode, List.append_assoc, List.length_append]
    omega
  | none =>
    have hh := length_encodeHeader_mod code flags vendorId
      (totalLength ⟨code, flags, vendorId, none, subAvps⟩)
    have hs := length_encodeSubAvps_mod subAvps
    rw [encode, List.length_append]
    omega

/-- The padding between members is empty. -/
theorem encodeSubAvps_eq (as : List Avp) : encodeSubAvps as = as.flatMap encode := by
  induction as with
  | nil => rfl
  | cons a as ih =>
    rw [encodeSubAvps, padding_eq_nil (length_encode_mod a), ih, List.append_nil,
      List.flatMap_cons]

/-- The wire form is header, payload and padding, for scalars and groups alike. -/
theorem encode_eq (a : Avp) :
    a.encode = encodeHeader a.code a.flags a.vendorId a.totalLength ++ a.payload ++
      padding a.payload := by
  obtain ⟨code, flags, vendorId, data, subAvps⟩ := a
  cases data with
  | some data => rw [encode]; rfl
  | none =>
    have hmod : (payload ⟨code, flags, vendorId, none, subAvps⟩).length % 4 = 0 := by
      rw [payload, ← encodeSubAvps_eq]
      exact length_encodeSubAvps_mod subAvps
    rw [encode, encodeSubAvps_eq, padding_eq_nil hmod, List.append_nil]
    rfl

/-! ### The length computation -/

/-- Rounding a length that has wrapped gives the rounded length, wrapped. -/
theorem toNat_alignLength {l : UInt32} {n : Nat} (h : l.toNat = n % 2 ^ 32) :
    (alignLength l).toNat = (n + padLen 4 n) % 2 ^ 32 := by
  have hmod : (l % 4).toNat = n % 4 := by
    simp only [UInt32.toNat_mod, h]
    show n % 2 ^ 32 % 4 = _
    omega
  unfold alignLength padLen
  by_cases hz : l % 4 = 0
  · have hz' : n % 4 = 0 := by rw [← hmod, hz]; rfl
    simp [hz, hz', h]
  · have hz' : n % 4 ≠ 0 := fun h0 => hz (UInt32.toNat_inj.mp (by rw [hmod, h0]; rfl))
    have hsub : (4 - l % 4).toNat = 4 - n % 4 := by
      rw [UInt32.toNat_sub_of_le _ _ (by rw [UInt32.le_iff_toNat_le, hmod]; change _ ≤ 4; omega),
        hmod]
      rfl
    simp only [hz, hz', if_false]
    rw [UInt32.toNat_add, hsub, h]
    omega

/-- What the encoder counts agrees with what it writes, as far as 32 bits go: the header
has its length, and the length is that of header and payload. -/
structure Counted (a : Avp) : Prop where
  header : (encodeHeader a.code a.flags a.vendorId a.totalLength).length =
    (headerLength a.flags).toNat
  total : a.totalLength.toNat = ((headerLength a.flags).toNat + a.payload.length) % 2 ^ 32

theorem headerLength_mod (flags : UInt8) : (headerLength flags).toNat % 4 = 0 := by
  rw [headerLength]
  cases (flags &&& 0x80 != 0) <;> rfl

/-- The value of an AVP starts at a multiple of four, so it is padded like the whole. -/
theorem padLen_header (flags : UInt8) (n : Nat) :
    padLen 4 ((headerLength flags).toNat + n) = padLen 4 n :=
  padLen_add_left (headerLength_mod flags) n

theorem Counted.length_encode {a : Avp} (h : a.Counted) :
    a.encode.length =
      (headerLength a.flags).toNat + a.payload.length + padLen 4 a.payload.length := by
  rw [encode_eq, List.length_append, List.length_append, length_padding, h.header]

/-- The rounded length counts the whole wire form. -/
theorem Counted.padded {a : Avp} (h : a.Counted) :
    a.totalLengthIncludingPadding.toNat = a.encode.length % 2 ^ 32 := by
  rw [totalLengthIncludingPadding, toNat_alignLength h.total, padLen_header, h.length_encode]

/-- An AVP whose vendor id is there if its bit is set, over a value that is counted. -/
theorem Counted.ofValue {a : Avp} {v : UInt32}
    (hvendor : (a.flags &&& 0x80 != 0) = true → a.vendorId.isSome = true)
    (htotal : a.totalLength = v + headerLength a.flags)
    (hvalue : v.toNat = a.payload.length % 2 ^ 32) : a.Counted := by
  constructor
  · rw [length_encodeHeader, headerLength]
    cases hbit : (a.flags &&& 0x80 != 0) with
    | false => rfl
    | true => rw [hvendor hbit]; rfl
  · rw [htotal, UInt32.toNat_add, hvalue]
    omega

/-- The sum over members counts their wire forms, if it does for each of them. -/
theorem toNat_sumTotalLength {as : List Avp} (h : ∀ a ∈ as, a.Counted) :
    (sumTotalLength as).toNat = (as.flatMap encode).length % 2 ^ 32 := by
  induction as with
  | nil => rfl
  | cons a as ih =>
    have ha : (alignLength a.totalLength).toNat = _ := (h a List.mem_cons_self).padded
    have has := ih fun b hb => h b (List.mem_cons_of_mem _ hb)
    rw [sumTotalLength, UInt32.toNat_add, ha, has, List.flatMap_cons, List.length_append]
    omega

section
variable {code : UInt32} {flags : UInt8} {vendorId : Option UInt32} {data : List UInt8}
  {subAvps : List Avp}

theorem Counted.scalar (hvendor : (flags &&& 0x80 != 0) = true → vendorId.isSome = true) :
    Counted ⟨code, flags, vendorId, some data, subAvps⟩ := by
  refine .ofValue (v := data.length.toUInt32) hvendor ?_ ?_
  · rw [totalLength, UInt32.add_assoc]
    rfl
  · rw [Nat.toUInt32_eq, UInt32.toNat_ofNat']
    rfl

theorem Counted.grouped (hvendor : (flags &&& 0x80 != 0) = true → vendorId.isSome = true)
    (h : ∀ a ∈ subAvps, a.Counted) : Counted ⟨code, flags, vendorId, none, subAvps⟩ := by
  refine .ofValue (v := sumTotalLength subAvps) hvendor ?_ (toNat_sumTotalLength h)
  rw [totalLength, UInt32.add_assoc]
  rfl

end

theorem WellFormed.counted {a : Avp} (hwf : WellFormed a) : a.Counted := by
  induction hwf with
  | scalar hv => exact .scalar fun hbit => hv ▸ hbit
  | grouped hv _ ih => exact .grouped (fun hbit => hv ▸ hbit) ih

/-- A member's wire form is no longer than the group's. -/
theorem length_encode_le_flatMap {a : Avp} {as : List Avp} (h : a ∈ as) :
    a.encode.length ≤ (as.flatMap encode).length := by
  obtain ⟨pre, post, rfl⟩ := List.append_of_mem h
  simp only [List.flatMap_append, List.flatMap_cons, List.length_append]
  omega

theorem length_payload_le (a : Avp) : a.payload.length ≤ a.encode.length := by
  rw [encode_eq, List.length_append, List.length_append]
  omega

/-- The encoder's length arithmetic on well-formed AVPs: below `2 ^ 32` bytes nothing
wraps, the length field counts header and payload, and its rounding counts the whole
wire form. -/
theorem toNat_totalLength {a : Avp} (hwf : WellFormed a) (hlt : a.encode.length < 2 ^ 32) :
    a.totalLength.toNat = (headerLength a.flags).toNat + a.payload.length ∧
      a.totalLengthIncludingPadding.toNat = a.encode.length := by
  have hcounted := hwf.counted
  have hlen := hcounted.length_encode
  rw [hcounted.total, hcounted.padded]
  exact ⟨Nat.mod_eq_of_lt (by omega), Nat.mod_eq_of_lt hlt⟩

/-! ### The round trip -/

/-- A 32-bit number is its four bytes. -/
theorem exists_toBeBytes (x : UInt32) : ∃ b0 b1 b2 b3, toBeBytes x = [b0, b1, b2, b3] :=
  ⟨_, _, _, _, rfl⟩

/-- The header reader inverts the header writer, whatever follows. It sees the low 24 bits
of the length, which must cover the header. -/
theorem decodeHeader_encodeHeader (code : UInt32) {flags vendorId} (length : UInt32)
    (hvendor : (flags &&& 0x80 != 0) = Option.isSome (α := UInt32) vendorId)
    (rest : List UInt8) :
    decodeHeader (encodeHeader code flags vendorId length ++ rest) =
      if length &&& 0x00FFFFFF < headerLength flags then none
      else some (code, flags, length &&& 0x00FFFFFF, vendorId) := by
  obtain ⟨c0, c1, c2, c3, hc⟩ := exists_toBeBytes code
  obtain ⟨l0, l1, l2, l3, hl⟩ := exists_toBeBytes length
  have hcode : fromBeBytes [c0, c1, c2, c3] = code := by rw [← hc, fromBeBytes_toBeBytes]
  have hlen : fromBeBytes [0, l1, l2, l3] = length &&& 0x00FFFFFF := by
    have := fromBeBytes_drop_one length
    rwa [hl] at this
  cases vendorId with
  | none =>
    have hbit : (flags &&& 0x80 != 0) = false := hvendor
    simp [encodeHeader, decodeHeader, hc, hl, hbit, hcode, hlen]
  | some vendor =>
    obtain ⟨v0, v1, v2, v3, hv⟩ := exists_toBeBytes vendor
    have hvid : fromBeBytes [v0, v1, v2, v3] = vendor := by rw [← hv, fromBeBytes_toBeBytes]
    have hbit : (flags &&& 0x80 != 0) = true := hvendor
    have h8 : ¬rest.length + 1 + 1 + 1 + 1 + 1 + 1 + 1 + 1 + 1 + 1 + 1 + 1 < 8 := by omega
    have h12 : ¬rest.length + 1 + 1 + 1 + 1 + 1 + 1 + 1 + 1 + 1 + 1 + 1 + 1 < 12 := by omega
    simp [encodeHeader, decodeHeader, hc, hl, hv, hbit, hcode, hlen, hvid, h8, h12]

/-- The length the wire form of an AVP declares: 24 bits of the length of header and
payload. -/
def declaredLength (a : Avp) : Nat := ((headerLength a.flags).toNat + a.payload.length) % 2 ^ 24

/-- Decoding the wire form of any AVP, with any bytes behind it, gives the same header if
the declared length covers it, with as much of the payload as is declared. -/
theorem decode_encode_declared {a : Avp} (hcounted : a.Counted)
    (hvendor : (a.flags &&& 0x80 != 0) = a.vendorId.isSome) (rest : List UInt8) :
    decode (a.encode ++ rest) =
      if a.declaredLength < (headerLength a.flags).toNat then
        .error "Failed to decode AVP header"
      else .ok { a with
        data := some (a.payload.take (a.declaredLength - (headerLength a.flags).toNat))
        subAvps := [] } := by
  have hdeclared : (a.totalLength &&& 0x00FFFFFF).toNat = a.declaredLength := by
    rw [toNat_and_low24, hcounted.total, declaredLength]
    omega
  have hheader := decodeHeader_encodeHeader a.code a.totalLength hvendor
    (a.payload ++ padding a.payload ++ rest)
  have hbytes : a.encode ++ rest = encodeHeader a.code a.flags a.vendorId a.totalLength ++
      (a.payload ++ padding a.payload ++ rest) := by
    rw [encode_eq]; simp only [List.append_assoc]
  simp only [UInt32.lt_iff_toNat_lt, hdeclared, ← hbytes] at hheader
  by_cases hshort : a.declaredLength < (headerLength a.flags).toNat
  · rw [if_pos hshort] at hheader ⊢
    simp only [decode, hheader]
  · rw [if_neg hshort] at hheader ⊢
    have hle : a.declaredLength ≤ (headerLength a.flags).toNat + a.payload.length := Nat.mod_le _ _
    have hlen : ¬(a.encode ++ rest).length < a.declaredLength := by
      rw [List.length_append, hcounted.length_encode]
      omega
    have hvalue : ((a.encode ++ rest).take a.declaredLength).drop (headerLength a.flags).toNat =
        a.payload.take (a.declaredLength - (headerLength a.flags).toNat) := by
      rw [hbytes, List.drop_take, List.drop_left' hcounted.header, List.append_assoc,
        List.take_append_of_le_length (by omega)]
    simp only [decode, hheader, hdeclared, hlen, if_false, hvalue, new_eq hvendor]

/-- **AVP round trip.** Decoding the wire form of a well-formed AVP, with any bytes
behind it, gives the same header with the payload as raw data. -/
theorem decode_encode {a : Avp} (hwf : WellFormed a) (hlt : a.encode.length < 2 ^ 24)
    (rest : List UInt8) : decode (a.encode ++ rest) = .ok a.wire := by
  have hcounted := hwf.counted
  have hlen := hcounted.length_encode
  have hdeclared : a.declaredLength = (headerLength a.flags).toNat + a.payload.length :=
    Nat.mod_eq_of_lt (by omega)
  rw [decode_encode_declared hcounted hwf.vendor, hdeclared, if_neg (by omega),
    Nat.add_sub_cancel_left, List.take_length]
  rfl

/-- The decoded AVP encodes to the same bytes. -/
theorem encode_wire {a : Avp} (hwf : WellFormed a) (hlt : a.encode.length < 2 ^ 24) :
    a.wire.encode = a.encode := by
  have hlen : a.wire.totalLength = a.totalLength := by
    apply UInt32.toNat_inj.mp
    have ha := (toNat_totalLength hwf (by omega)).1
    have hle := length_payload_le a
    have hw : a.wire.totalLength.toNat =
        (headerLength a.flags).toNat + a.payload.length := by
      have hheader : (headerLength a.flags).toNat ≤ 12 := by
        rw [headerLength]; cases (a.flags &&& 0x80 != 0) <;> decide
      have hdata : a.payload.length.toUInt32.toNat = a.payload.length := by
        rw [Nat.toUInt32_eq, UInt32.toNat_ofNat', Nat.mod_eq_of_lt (by omega)]
      have htotal : a.wire.totalLength = a.payload.length.toUInt32 + headerLength a.flags := by
        rw [wire, totalLength, UInt32.add_assoc]; rfl
      rw [htotal, UInt32.toNat_add, hdata, Nat.mod_eq_of_lt (by omega), Nat.add_comm]
    rw [hw, ha]
  rw [encode_eq, encode_eq a, hlen]
  rfl

/-! ### What the decoder accepts -/

theorem le_headerLength (flags : UInt8) : 8 ≤ (headerLength flags).toNat := by
  rw [headerLength]; cases (flags &&& 0x80 != 0) <;> decide

/-- A header read from `buffer`: the vendor field follows the vendor bit, and the
declared length covers the header and fits in 24 bits. -/
theorem decodeHeader_some {buffer code flags length vendorId}
    (h : decodeHeader buffer = some (code, flags, length, vendorId)) :
    ((flags &&& 0x80 != 0) = vendorId.isSome) ∧
      (headerLength flags).toNat ≤ length.toNat ∧ length.toNat < 2 ^ 24 := by
  have hlen24 : ∀ b0 b1 b2 : UInt8, (fromBeBytes [0, b0, b1, b2]).toNat < 2 ^ 24 := by
    intro b0 b1 b2
    have hlt := beValue_lt [b0, b1, b2]
    rw [toNat_fromBeBytes (by simp)]
    simpa [beValue] using hlt
  unfold decodeHeader at h
  split at h
  · cases h
  · simp only at h
    split at h
    · rename_i hbit
      split at h
      · cases h
      · split at h
        · cases h
        · rename_i hle
          simp only [Option.some.injEq, Prod.mk.injEq] at h
          obtain ⟨-, rfl, rfl, rfl⟩ := h
          exact ⟨hbit, UInt32.le_iff_toNat_le.mp (UInt32.not_lt.mp hle), hlen24 _ _ _⟩
    · rename_i hbit
      split at h
      · cases h
      · rename_i hle
        simp only [Option.some.injEq, Prod.mk.injEq] at h
        obtain ⟨-, rfl, rfl, rfl⟩ := h
        exact ⟨by simpa using hbit, UInt32.le_iff_toNat_le.mp (UInt32.not_lt.mp hle),
          hlen24 _ _ _⟩

/-- What a decoded AVP is: a well-formed scalar whose header and payload fill the
declared length, read from bytes that are there. -/
theorem decode_ok {data : List UInt8} {a : Avp} (h : decode data = .ok a) :
    a.data = some a.payload ∧ WellFormed a ∧
      a.totalLength.toNat = (headerLength a.flags).toNat + a.payload.length ∧
      a.totalLength.toNat ≤ data.length ∧ a.totalLength.toNat < 2 ^ 24 := by
  unfold decode at h
  split at h
  · rename_i code flags length vendorId hheader
    obtain ⟨hvendor, hle, hlt⟩ := decodeHeader_some hheader
    split at h
    · cases h
    · rename_i hshort
      simp only [new_eq hvendor] at h
      obtain rfl := Except.ok.inj h
      have hdata : ((data.take length.toNat).drop (headerLength flags).toNat).length =
          length.toNat - (headerLength flags).toNat := by
        rw [List.length_drop, List.length_take]; omega
      have htotal : totalLength ⟨code, flags, vendorId,
          some ((data.take length.toNat).drop (headerLength flags).toNat), []⟩ = length := by
        apply UInt32.toNat_inj.mp
        rw [totalLength, UInt32.add_assoc]
        show (_ + headerLength flags).toNat = _
        rw [UInt32.toNat_add, Nat.toUInt32_eq, UInt32.toNat_ofNat', hdata,
          Nat.mod_eq_of_lt (by omega), Nat.mod_eq_of_lt (by omega)]
        omega
      refine ⟨rfl, .scalar hvendor, ?_, ?_, ?_⟩ <;> rw [htotal]
      · show _ = _ + List.length (List.drop _ _)
        rw [hdata]; change _ = (headerLength flags).toNat + _; omega
      · omega
      · exact hlt
  · cases h

/-- A decoded AVP takes up at least its header. -/
theorem le_totalLengthIncludingPadding {data : List UInt8} {a : Avp} (h : decode data = .ok a) :
    8 ≤ a.totalLengthIncludingPadding.toNat := by
  obtain ⟨-, -, htot, -, hlt⟩ := decode_ok h
  have hheader := le_headerLength a.flags
  have hpad := padLen_lt (k := 4) (by omega) a.totalLength.toNat
  rw [totalLengthIncludingPadding, toNat_alignLength (n := a.totalLength.toNat) (by omega)]
  omega

end Avp

end RestDiameterBridge
