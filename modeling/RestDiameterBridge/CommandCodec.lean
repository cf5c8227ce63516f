import RestDiameterBridge.Command

/-!
# RestDiameterBridge.CommandCodec

Correctness of the command codec: decoding the wire form of a command gives the
command back, with every AVP in its wire shape, and that command encodes to the same
bytes.

The AVP loop is followed by `decodeAvps_flatMap`, an induction over the AVP list whose
invariant is the offset: after `k` turns it is the length of the first `k` wire forms.
-/

namespace RestDiameterBridge

open Bytes

namespace Command

/-- Commands the wire format can carry: a 24-bit code, well-formed AVPs, and a wire
form whose length fits the 24-bit length field. -/
structure WellFormed (c : Command) : Prop where
  code : c.code.toNat < 2 ^ 24
  avps : ∀ a ∈ c.avps, a.WellFormed
  size : c.encode.length < 2 ^ 24

/-- The command as a peer sees it: every AVP in its wire shape. -/
def wire (c : Command) : Command := { c with avps := c.avps.map Avp.wire }

/-! ### Lengths -/

theorem length_encode (c : Command) :
    c.encode.length = 20 + (c.avps.flatMap Avp.encode).length := by
  simp only [encode, List.length_append, length_toBeBytes]

/-- The length the encoder computes from the AVPs counts their wire forms. -/
theorem sum_totalLengthIncludingPadding {as : List Avp} (hwf : ∀ a ∈ as, a.WellFormed)
    (hlt : (as.flatMap Avp.encode).length < 2 ^ 32) :
    (as.map fun a => a.totalLengthIncludingPadding.toNat).sum =
      (as.flatMap Avp.encode).length := by
  induction as with
  | nil => rfl
  | cons a as ih =>
    rw [List.flatMap_cons, List.length_append] at hlt ⊢
    have ha := (Avp.toNat_totalLength (hwf a List.mem_cons_self) (by omega)).2
    have has := ih (fun b hb => hwf b (List.mem_cons_of_mem _ hb)) (by omega)
    rw [List.map_cons, List.sum_cons, ha, has]

theorem WellFormed.length_avp {c : Command} (hwf : c.WellFormed) {a : Avp} (ha : a ∈ c.avps) :
    a.encode.length < 2 ^ 24 := by
  have hle := Avp.length_encode_le_flatMap ha
  have hsize := hwf.size
  rw [length_encode] at hsize
  omega

/-! ### The header -/

/-- The two mixed words of the header, and what reading them back gives. -/
theorem and_low24_word (hi : UInt8) (lo : UInt32) :
    ((hi.toUInt32 <<< 24 ||| (lo &&& 0x00FFFFFF)) &&& 0x00FFFFFF).toNat =
      lo.toNat % 2 ^ 24 := by
  have hlo : (lo &&& 0x00FFFFFF).toNat < 2 ^ 24 := by
    rw [toNat_and_low24]; exact Nat.mod_lt _ (by omega)
  rw [toNat_and_low24, toNat_shiftLeft_or hi hlo, toNat_and_low24]
  omega

/-- Reading back a word that carries an octet over a 24-bit number: its first byte is
the octet, the rest the number. -/
theorem exists_toBeBytes_word (hi : UInt8) (lo : UInt32) :
    ∃ b1 b2 b3, toBeBytes (hi.toUInt32 <<< 24 ||| (lo &&& 0x00FFFFFF)) = [hi, b1, b2, b3] ∧
      (fromBeBytes [hi, b1, b2, b3] &&& 0x00FFFFFF).toNat = lo.toNat % 2 ^ 24 := by
  obtain ⟨b0, b1, b2, b3, hb⟩ :=
    Avp.exists_toBeBytes (hi.toUInt32 <<< 24 ||| (lo &&& 0x00FFFFFF))
  have hword := toBeBytes_word hi lo
  rw [hb] at hword
  obtain rfl : b0 = hi := (List.cons.inj hword).1
  exact ⟨b1, b2, b3, hb, by rw [← hb, fromBeBytes_toBeBytes, and_low24_word]⟩

/-! ### The AVP loop -/

/-- The loop reads the wire forms of `as` one by one and stops behind the last. -/
theorem decodeAvps_flatMap {as : List Avp} (hwf : ∀ a ∈ as, a.WellFormed)
    (hlt : ∀ a ∈ as, a.encode.length < 2 ^ 24) (pre rest : List UInt8) (acc : List Avp) :
    decodeAvps (pre ++ as.flatMap Avp.encode ++ rest)
        (pre.length + (as.flatMap Avp.encode).length) pre.length acc =
      .ok (acc ++ as.map Avp.wire) := by
  induction as generalizing pre acc with
  | nil =>
    rw [decodeAvps_of_lt (by simp)]
    simp
  | cons a as ih =>
    have ha := hwf a List.mem_cons_self
    have hsize := hlt a List.mem_cons_self
    have hdecode : Avp.decode
        ((pre ++ (a :: as).flatMap Avp.encode ++ rest).drop pre.length) = .ok a.wire := by
      rw [List.append_assoc, List.drop_left' rfl, List.flatMap_cons, List.append_assoc]
      exact Avp.decode_encode ha hsize _
    have hstep : a.wire.totalLengthIncludingPadding.toNat = a.encode.length := by
      have henc := Avp.encode_wire ha hsize
      rw [(Avp.toNat_totalLength (Avp.wire_wellFormed ha) (by rw [henc]; omega)).2, henc]
    have hpos : 8 ≤ a.encode.length := by
      rw [← hstep]
      exact Avp.le_totalLengthIncludingPadding hdecode
    have hle : pre.length + 8 ≤ pre.length + ((a :: as).flatMap Avp.encode).length := by
      rw [List.flatMap_cons, List.length_append]; omega
    -- the loop goes on behind the AVP: what is in front of it grows
    rw [decodeAvps_of_ok hle hdecode, hstep]
    have := ih (fun b hb => hwf b (List.mem_cons_of_mem _ hb))
      (fun b hb => hlt b (List.mem_cons_of_mem _ hb)) (pre ++ a.encode) (acc ++ [a.wire])
    simpa only [List.flatMap_cons, List.length_append, List.append_assoc, Nat.add_assoc,
      List.map_cons, List.singleton_append] using this

/-! ### The round trip -/

/-- The first word of a well-formed command's wire form declares its length. -/
theorem exists_toBeBytes_length {c : Command} (hwf : c.WellFormed) :
    ∃ l1 l2 l3, toBeBytes (0x01000000 |||
        ((20 + (c.avps.map fun a => a.totalLengthIncludingPadding.toNat).sum).toUInt32 &&&
          0x00FFFFFF)) = [1, l1, l2, l3] ∧
      (fromBeBytes [1, l1, l2, l3] &&& 0x00FFFFFF).toNat = c.encode.length := by
  have hsize := hwf.size
  have hlen := length_encode c
  have hsum := sum_totalLengthIncludingPadding hwf.avps (by omega)
  have hversion : (0x01000000 : UInt32) = (1 : UInt8).toUInt32 <<< 24 := by decide
  obtain ⟨l1, l2, l3, hl, hlv⟩ := exists_toBeBytes_word 1
    (20 + (c.avps.map fun a => a.totalLengthIncludingPadding.toNat).sum).toUInt32
  refine ⟨l1, l2, l3, hversion ▸ hl, ?_⟩
  rw [hlv, hsum, ← hlen, Nat.toUInt32_eq, UInt32.toNat_ofNat']
  omega

theorem fromBeBytes_eq {b0 b1 b2 b3 : UInt8} {x : UInt32} (h : toBeBytes x = [b0, b1, b2, b3]) :
    fromBeBytes [b0, b1, b2, b3] = x := by
  rw [← h, fromBeBytes_toBeBytes]

/-- **Command round trip.** The wire form of a well-formed command decodes to the
command in its wire shape. -/
theorem decode_encode {c : Command} (hwf : c.WellFormed) : decode c.encode = .ok c.wire := by
  have hlen := length_encode c
  obtain ⟨l1, l2, l3, hl, hlength⟩ := exists_toBeBytes_length hwf
  obtain ⟨c1, c2, c3, hc, hcv⟩ := exists_toBeBytes_word c.flags c.code
  obtain ⟨a0, a1, a2, a3, ha⟩ := Avp.exists_toBeBytes c.applicationId
  obtain ⟨h0, h1, h2, h3, hh⟩ := Avp.exists_toBeBytes c.hopByHopId
  obtain ⟨e0, e1, e2, e3, he⟩ := Avp.exists_toBeBytes c.endToEndId
  have hcode : fromBeBytes [c.flags, c1, c2, c3] &&& 0x00FFFFFF = c.code := by
    apply UInt32.toNat_inj.mp
    rw [hcv, Nat.mod_eq_of_lt hwf.code]
  have hbytes : c.encode = [1, l1, l2, l3, c.flags, c1, c2, c3, a0, a1, a2, a3, h0, h1, h2, h3,
      e0, e1, e2, e3] ++ c.avps.flatMap Avp.encode := by
    simp only [encode, hl, hc, ha, hh, he, List.cons_append, List.nil_append]
  have hloop := decodeAvps_flatMap hwf.avps (fun a ha => hwf.length_avp ha)
    [1, l1, l2, l3, c.flags, c1, c2, c3, a0, a1, a2, a3, h0, h1, h2, h3, e0, e1, e2, e3] [] []
  rw [List.append_nil, ← hbytes] at hloop
  have hshort : ¬c.encode.length < 20 := by omega
  have happ := fromBeBytes_eq ha
  have hhop := fromBeBytes_eq hh
  have hend := fromBeBytes_eq he
  have hgoal : decodeAvps c.encode c.encode.length 20 [] = .ok (c.avps.map Avp.wire) := by
    rw [hlen]; simpa using hloop
  unfold decode
  rw [dif_neg hshort]
  have hget : ∀ (i : Nat) (hi : i < c.encode.length) (hi' : i < 20), c.encode[i] =
      [1, l1, l2, l3, c.flags, c1, c2, c3, a0, a1, a2, a3, h0, h1, h2, h3, e0, e1, e2, e3][i] := by
    intro i hi hi'
    simp only [hbytes]
    rw [List.getElem_append_left]
  simp only [hget, List.getElem_cons_zero, List.getElem_cons_succ, Nat.reduceLT]
  simp only [hlength, Nat.lt_irrefl, if_false, hgoal, hcode, happ, hhop, hend]
  rfl

/-- The decoded command encodes to the same bytes. -/
theorem encode_wire {c : Command} (hwf : c.WellFormed) : c.wire.encode = c.encode := by
  have henc : ∀ a ∈ c.avps, a.wire.encode = a.encode := fun a ha =>
    Avp.encode_wire (hwf.avps a ha) (hwf.length_avp ha)
  have hlen : ∀ a ∈ c.avps,
      a.wire.totalLengthIncludingPadding = a.totalLengthIncludingPadding := by
    intro a ha
    have hlt := hwf.length_avp ha
    apply UInt32.toNat_inj.mp
    rw [(Avp.toNat_totalLength (Avp.wire_wellFormed (hwf.avps a ha)) (by rw [henc a ha]; omega)).2,
      (Avp.toNat_totalLength (hwf.avps a ha) (by omega)).2, henc a ha]
  have hsum : (c.wire.avps.map fun a => a.totalLengthIncludingPadding.toNat) =
      c.avps.map fun a => a.totalLengthIncludingPadding.toNat := by
    rw [wire, List.map_map]
    exact List.map_congr_left fun a ha => congrArg UInt32.toNat (hlen a ha)
  have hflat : c.wire.avps.flatMap Avp.encode = c.avps.flatMap Avp.encode := by
    rw [wire, List.flatMap_map, List.flatMap_def, List.flatMap_def]
    exact congrArg List.flatten (List.map_congr_left henc)
  simp only [encode, hsum, hflat]
  rfl

/-- Decoding what was encoded keeps the header, and for every AVP, in order, its code,
flags, vendor id and payload; the decoded command encodes to the same bytes. -/
theorem decode_encode_roundTrip (c : Command) (hwf : c.WellFormed) :
    ∃ c', decode c.encode = .ok c' ∧
      c'.code = c.code ∧ c'.flags = c.flags ∧ c'.applicationId = c.applicationId ∧
      c'.hopByHopId = c.hopByHopId ∧ c'.endToEndId = c.endToEndId ∧
      c'.avps.map (fun a => (a.code, a.flags, a.vendorId, a.data)) =
        c.avps.map (fun a => (a.code, a.flags, a.vendorId, some a.payload)) ∧
      c'.encode = c.encode := by
  refine ⟨c.wire, decode_encode hwf, rfl, rfl, rfl, rfl, rfl, ?_, encode_wire hwf⟩
  rw [wire, List.map_map]
  rfl

/-- A request with a vendor-specific AVP of odd length and a group holding one member
and an empty group. -/
def sampleRequest : Command where
  code := 272
  flags := 0xC0
  applicationId := 4
  hopByHopId := 7
  endToEndId := 9
  avps :=
    [⟨1, 0xC0, some 10415, some [1, 2, 3], []⟩,
      ⟨279, 0x40, none, none, [⟨263, 0x40, none, some [65], []⟩, ⟨284, 0x40, none, none, []⟩]⟩]

theorem sampleRequest_wellFormed : sampleRequest.WellFormed where
  code := by decide
  avps := by
    intro a ha
    simp only [sampleRequest, List.mem_cons, List.not_mem_nil, or_false] at ha
    rcases ha with rfl | rfl
    · exact .scalar rfl
    · refine .grouped rfl fun b hb => ?_
      simp only [List.mem_cons, List.not_mem_nil, or_false] at hb
      rcases hb with rfl | rfl
      · exact .scalar rfl
      · exact .grouped rfl (by simp)
  size := by decide

theorem decode_encode_roundTrip_sample :
    ∃ c', decode sampleRequest.encode = .ok c' ∧
      c'.code = 272 ∧ c'.flags = 0xC0 ∧ c'.applicationId = 4 ∧
      c'.hopByHopId = 7 ∧ c'.endToEndId = 9 ∧
      c'.avps.map (fun a => (a.code, a.flags, a.vendorId, a.data)) =
        sampleRequest.avps.map (fun a => (a.code, a.flags, a.vendorId, some a.payload)) ∧
      c'.encode = sampleRequest.encode :=
  decode_encode_roundTrip sampleRequest sampleRequest_wellFormed

end Command

end RestDiameterBridge
