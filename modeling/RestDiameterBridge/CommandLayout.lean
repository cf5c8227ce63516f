import RestDiameterBridge.CommandBuffer

/-!
# RestDiameterBridge.CommandLayout

Which bytes a decoded command stands for.

A decoded AVP is written back as the bytes it declares, with zeros in the padding
(`Avp.encode_of_decode`). `Command::decode` stops where fewer than eight bytes are left of
the declared length, and hands every AVP all bytes that were received. `laidOut_iff` says
for which bytes the AVPs nevertheless fill the declared length, and the command is written
back as it was read.
-/

namespace RestDiameterBridge

open Bytes

namespace Avp

/-- The positions of the wire form that are free: the padding. -/
def freeBytes (a : Avp) : List Bool :=
  List.replicate a.totalLength.toNat false ++
    List.replicate (a.totalLengthIncludingPadding.toNat - a.totalLength.toNat) true

/-! ### What an AVP is read from -/

/-- The header that is read is written back as the bytes it was read from. -/
theorem take_of_decodeHeader {buffer code flags length vendorId}
    (h : decodeHeader buffer = some (code, flags, length, vendorId)) :
    buffer.take (headerLength flags).toNat = encodeHeader code flags vendorId length := by
  unfold decodeHeader at h
  split at h
  · cases h
  rename_i h8
  have hcode := take_four (l := buffer) (i := 0) (by omega)
  have hword := take_four (l := buffer) (i := 4) (by omega)
  have hlength : (toBeBytes (fromBeBytes [0, buffer[5], buffer[6], buffer[7]])).drop 1 =
      [buffer[5], buffer[6], buffer[7]] := by
    rw [toBeBytes_fromBeBytes rfl]
    rfl
  have hfront : buffer.take (4 + 4) = [buffer[0], buffer[1], buffer[2], buffer[3]] ++
      [buffer[4]] ++ [buffer[5], buffer[6], buffer[7]] := by
    rw [List.drop_zero] at hcode
    rw [List.take_add, hcode, hword]
    rfl
  simp only at h
  split at h
  · rename_i hbit
    split at h
    · cases h
    rename_i h12
    split at h
    · cases h
    simp only [Option.some.injEq, Prod.mk.injEq] at h
    obtain ⟨rfl, rfl, rfl, rfl⟩ := h
    have hvendor := take_four (l := buffer) (i := 8) (by omega)
    rw [headerLength, encodeHeader, if_pos hbit, if_pos hbit, hlength,
      toBeBytes_fromBeBytes rfl, ← hfront]
    rw [toBeBytes_fromBeBytes rfl, ← hvendor, ← List.take_add]
    rfl
  · rename_i hbit
    split at h
    · cases h
    simp only [Option.some.injEq, Prod.mk.injEq] at h
    obtain ⟨rfl, rfl, rfl, rfl⟩ := h
    rw [headerLength, encodeHeader, if_neg hbit, if_neg hbit, hlength,
      toBeBytes_fromBeBytes rfl, ← hfront, List.append_nil]
    rfl

/-- A decoded AVP is written back as the bytes it was read from, in front of the padding. -/
theorem take_of_decode {data : List UInt8} {a : Avp} (h : decode data = .ok a) :
    data.take a.totalLength.toNat =
      encodeHeader a.code a.flags a.vendorId a.totalLength ++ a.payload := by
  obtain ⟨hdata, hwf, htotal, hle, hlt⟩ := decode_ok h
  unfold decode at h
  split at h
  · rename_i code flags length vendorId hheader
    obtain ⟨hvendor, hcovers, -⟩ := decodeHeader_some hheader
    split at h
    · cases h
    rename_i hshort
    simp only [new_eq hvendor] at h
    obtain rfl := Except.ok.inj h
    have hvalue : payload ⟨code, flags, vendorId,
        some ((data.take length.toNat).drop (headerLength flags).toNat), []⟩ =
        (data.take length.toNat).drop (headerLength flags).toNat := rfl
    rw [hvalue] at htotal ⊢
    -- header and payload fill the declared length
    have hlength : totalLength ⟨code, flags, vendorId,
        some ((data.take length.toNat).drop (headerLength flags).toNat), []⟩ = length := by
      apply UInt32.toNat_inj.mp
      rw [htotal, List.length_drop, List.length_take]
      dsimp only
      omega
    rw [hlength, ← take_of_decodeHeader hheader]
    have hfront : data.take (headerLength flags).toNat =
        (data.take length.toNat).take (headerLength flags).toNat := by
      rw [List.take_take, Nat.min_eq_left hcovers]
    rw [hfront, List.take_append_drop]
  · cases h

theorem length_encode_of_decode {data : List UInt8} {a : Avp} (h : decode data = .ok a) :
    a.encode.length = a.totalLengthIncludingPadding.toNat := by
  obtain ⟨-, hwf, htotal, -, hlt⟩ := decode_ok h
  have hlength := hwf.counted.length_encode
  have hpad := padLen_lt (k := 4) (by omega) a.payload.length
  rw [hwf.counted.padded, Nat.mod_eq_of_lt (by omega)]

theorem totalLength_le_padded {data : List UInt8} {a : Avp} (h : decode data = .ok a) :
    a.totalLength.toNat ≤ a.totalLengthIncludingPadding.toNat := by
  obtain ⟨-, hwf, htotal, -, -⟩ := decode_ok h
  have hlength := hwf.counted.length_encode
  rw [← length_encode_of_decode h]
  omega

/-- The wire form of a decoded AVP is what it was read from, up to the padding. -/
theorem blank_of_decode {data : List UInt8} {a : Avp} (h : decode data = .ok a)
    (hle : a.totalLengthIncludingPadding.toNat ≤ data.length) :
    blank a.freeBytes a.encode =
      blank a.freeBytes (data.take a.totalLengthIncludingPadding.toNat) := by
  have hpadded := totalLength_le_padded h
  have hlength := length_encode_of_decode h
  obtain ⟨-, -, -, hread, -⟩ := decode_ok h
  have hwritten : (encodeHeader a.code a.flags a.vendorId a.totalLength ++ a.payload).length =
      a.totalLength.toNat := by
    rw [← take_of_decode h, List.length_take, Nat.min_eq_left hread]
  refine blank_filler (by omega) (by rw [List.length_take]; omega) ?_
  rw [encode_eq, List.take_left' hwritten, List.take_take, Nat.min_eq_left hpadded,
    take_of_decode h]

end Avp

/-- The length an AVP declares in its header. -/
def avpLength (data : List UInt8) : Nat := beValue ((data.drop 5).take 3)

namespace Avp

/-- The declared length of a decoded AVP is that of its header and value. -/
theorem avpLength_of_decode {data : List UInt8} {a : Avp} (h : decode data = .ok a) :
    avpLength data = a.totalLength.toNat := by
  obtain ⟨-, -, htotal, -, hlt⟩ := decode_ok h
  have hheader := le_headerLength a.flags
  have hfield : (data.drop 5).take 3 = (toBeBytes a.totalLength).drop 1 := by
    have hwritten : data.take 8 = (encodeHeader a.code a.flags a.vendorId a.totalLength ++
        a.payload).take 8 := by
      rw [← take_of_decode h, List.take_take, Nat.min_eq_left (by omega)]
    have htake : (data.drop 5).take (8 - 5) = (data.take 8).drop 5 := List.drop_take.symm
    rw [htake, hwritten]
    unfold encodeHeader
    rw [List.append_assoc, List.append_assoc]
    rfl
  rw [avpLength, hfield]
  exact (beValue_beBytes 3 _).trans (Nat.mod_eq_of_lt hlt)

/-- A decoded AVP takes up its declared length, rounded up to four bytes. -/
theorem padded_of_decode {data : List UInt8} {a : Avp} (h : decode data = .ok a) :
    a.totalLengthIncludingPadding.toNat = avpLength data + padLen 4 (avpLength data) := by
  obtain ⟨-, -, -, -, hlt⟩ := decode_ok h
  have hpad := padLen_lt (k := 4) (by omega) a.totalLength.toNat
  rw [avpLength_of_decode h, totalLengthIncludingPadding,
    toNat_alignLength (n := a.totalLength.toNat) (by omega)]
  omega

/-- **What is decoded is written as it was read.** The wire form of a decoded AVP is its
declared bytes and zeros up to a multiple of four, and the loop over a message or a group goes
on behind as many bytes. -/
theorem encode_of_decode {data : List UInt8} {a : Avp} (h : decode data = .ok a) :
    avpLength data ≤ data.length ∧
      a.encode = data.take (avpLength data) ++ List.replicate (padLen 4 (avpLength data)) 0 ∧
      a.totalLengthIncludingPadding.toNat = a.encode.length ∧
      ∀ (message : List UInt8) (length offset : Nat) (avps : List Avp),
        message.drop offset = data → offset + 8 ≤ length →
          Command.decodeAvps message length offset avps =
            Command.decodeAvps message length (offset + a.encode.length) (avps ++ [a]) := by
  obtain ⟨-, -, htotal, hle, -⟩ := decode_ok h
  have hdeclared := avpLength_of_decode h
  have hlength := length_encode_of_decode h
  have hpadding : padding a.payload = List.replicate (padLen 4 (avpLength data)) 0 := by
    rw [hdeclared, htotal, padLen_header]
    unfold padding padLen
    by_cases hmod : a.payload.length % 4 = 0 <;> simp [hmod]
  refine ⟨by omega, ?_, hlength.symm, ?_⟩
  · rw [encode_eq, ← take_of_decode h, hpadding, hdeclared]
  · intro message length offset avps hdrop hroom
    rw [← hdrop] at h
    rw [Command.decodeAvps_of_ok hroom h, hlength]

/-- An AVP of eleven bytes, with bytes behind it that are not read. -/
theorem encode_of_decode_three :
    ∃ a, decode [0, 0, 1, 8, 0x40, 0, 0, 11, 97, 98, 99, 255, 7] = .ok a ∧
      a.encode = [0, 0, 1, 8, 0x40, 0, 0, 11, 97, 98, 99] ++ [0] ∧
      a.totalLengthIncludingPadding.toNat = a.encode.length := by
  have h : decode [0, 0, 1, 8, 0x40, 0, 0, 11, 97, 98, 99, 255, 7] =
      .ok (.new 264 0x40 none [97, 98, 99]) := rfl
  obtain ⟨-, hencode, hpadded, -⟩ := encode_of_decode h
  exact ⟨_, h, hencode, hpadded⟩

end Avp

namespace Command

/-! ### The AVPs of a message -/

/-- The bytes that AVPs take up with their padding. -/
def paddedLength (avps : List Avp) : Nat :=
  (avps.map fun a => a.totalLengthIncludingPadding.toNat).sum

/-- The AVPs that the loop reads from `offset` on. -/
inductive Reads (data : List UInt8) (length : Nat) : Nat → List Avp → Prop
  | done {offset : Nat} : length < offset + 8 → Reads data length offset []
  | next {offset : Nat} {a : Avp} {avps : List Avp} :
      offset + 8 ≤ length → Avp.decode (data.drop offset) = .ok a →
      Reads data length (offset + a.totalLengthIncludingPadding.toNat) avps →
      Reads data length offset (a :: avps)

/-- The length fields of the AVPs from `offset` on lead to the end of the message. -/
inductive Fills (data : List UInt8) (length : Nat) : Nat → Prop
  | done : Fills data length length
  | next {offset : Nat} : offset + 8 ≤ length →
      Fills data length (offset + (avpLength (data.drop offset) +
        padLen 4 (avpLength (data.drop offset)))) →
      Fills data length offset

section
variable {data : List UInt8} {length offset : Nat} {avps : List Avp}

theorem reads_of_decodeAvps {acc r : List Avp} (h : decodeAvps data length offset acc = .ok r) :
    ∃ avps, r = acc ++ avps ∧ Reads data length offset avps := by
  induction hn : length - offset using Nat.strongRecOn generalizing offset acc with
  | ind n ih =>
    by_cases hle : offset + 8 ≤ length
    · cases hd : Avp.decode (data.drop offset) with
      | ok a =>
        rw [decodeAvps_of_ok hle hd] at h
        have := Avp.le_totalLengthIncludingPadding hd
        obtain ⟨avps, rfl, hreads⟩ := ih _ (by omega) h rfl
        exact ⟨a :: avps, List.append_assoc acc [a] avps, .next hle hd hreads⟩
      | error e =>
        rw [decodeAvps_of_error hle hd] at h
        cases h
    · rw [decodeAvps_of_lt (by omega)] at h
      obtain rfl := Except.ok.inj h
      exact ⟨[], (List.append_nil _).symm, .done (by omega)⟩

/-- The length fields lead to the end exactly if the AVPs end there. -/
theorem fills_iff (h : Reads data length offset avps) :
    Fills data length offset ↔ offset + paddedLength avps = length := by
  induction h with
  | done hlt =>
    constructor
    · intro hfills
      cases hfills with
      | done => rfl
      | next hle => omega
    · intro heq
      rw [paddedLength, List.map_nil, List.sum_nil, Nat.add_zero] at heq
      exact heq ▸ .done
  | @next offset a avps hle hd hreads ih =>
    rw [Avp.padded_of_decode hd] at ih
    have hsum : paddedLength (a :: avps) = avpLength (data.drop offset) +
        padLen 4 (avpLength (data.drop offset)) + paddedLength avps := by
      rw [← Avp.padded_of_decode hd]
      exact List.sum_cons
    rw [hsum, ← Nat.add_assoc, ← ih]
    constructor
    · intro hfills
      cases hfills with
      | done => omega
      | next _ hrest => exact hrest
    · exact .next hle

/-- What AVPs that fill the message are read from is their wire form, up to the padding. -/
theorem blank_of_reads (h : Reads data length offset avps)
    (hfilled : offset + paddedLength avps = length) (hle : length ≤ data.length) :
    blank (avps.flatMap Avp.freeBytes) (avps.flatMap Avp.encode) =
      blank (avps.flatMap Avp.freeBytes) ((data.drop offset).take (paddedLength avps)) := by
  induction h with
  | done => rfl
  | @next offset a avps hroom hd hreads ih =>
    have hsum : paddedLength (a :: avps) =
        a.totalLengthIncludingPadding.toNat + paddedLength avps := List.sum_cons
    rw [hsum] at hfilled ⊢
    have hlength := Avp.length_encode_of_decode hd
    have hpadded := Avp.totalLength_le_padded hd
    have hfree : a.freeBytes.length = a.totalLengthIncludingPadding.toNat := by
      rw [Avp.freeBytes, List.length_append, List.length_replicate, List.length_replicate]
      omega
    have hrest : a.totalLengthIncludingPadding.toNat ≤ (data.drop offset).length := by
      rw [List.length_drop]
      omega
    have htake : a.freeBytes.length =
        ((data.drop offset).take a.totalLengthIncludingPadding.toNat).length := by
      rw [hfree, List.length_take, Nat.min_eq_left hrest]
    rw [List.flatMap_cons, List.flatMap_cons, List.take_add, List.drop_drop,
      blank_append (hfree.trans hlength.symm), blank_append htake,
      Avp.blank_of_decode hd hrest, ih (by omega)]

theorem length_of_reads (h : Reads data length offset avps) :
    (avps.flatMap Avp.encode).length = paddedLength avps := by
  induction h with
  | done => rfl
  | next _ hd _ ih =>
    rw [List.flatMap_cons, List.length_append, ih, Avp.length_encode_of_decode hd]
    exact List.sum_cons.symm

/-- Every AVP is read behind those in front of it. -/
theorem decode_of_reads {before after : List Avp} {a : Avp}
    (h : Reads data length offset (before ++ a :: after)) :
    Avp.decode (data.drop (offset + paddedLength before)) = .ok a := by
  induction before generalizing offset with
  | nil =>
    cases h with
    | next _ hd _ => exact hd
  | cons b before ih =>
    cases h with
    | next _ _ hreads =>
      have hd := ih hreads
      rw [Nat.add_assoc] at hd
      exact hd

theorem paddedLength_append (before after : List Avp) :
    paddedLength (before ++ after) = paddedLength before + paddedLength after := by
  rw [paddedLength, List.map_append, List.sum_append]
  rfl

end

/-! ### The message -/

section
open CommandBuffer (declaredLength declaredLength_eq)

variable {data : List UInt8} {c : Command}

/-- The positions of the wire form that are free: the version and the padding. -/
def freeBytes (c : Command) : List Bool :=
  (true :: List.replicate 19 false) ++ c.avps.flatMap Avp.freeBytes

/-- The header and the AVPs of the command fill the declared length of the bytes, and the
command is written as these bytes, the version and the padding apart. -/
structure LaidOut (data : List UInt8) (c : Command) : Prop where
  header : 20 ≤ declaredLength data
  available : declaredLength data ≤ data.length
  /-- The AVPs end where the message does. -/
  filled : 20 + paddedLength c.avps = declaredLength data
  /-- Every AVP is read behind those in front of it, from bytes of the message. -/
  inside : ∀ before a after, c.avps = before ++ a :: after →
    Avp.decode (data.drop (20 + paddedLength before)) = .ok a ∧
      20 + paddedLength before + a.totalLength.toNat ≤ declaredLength data
  length : c.encode.length = declaredLength data
  written : blank c.freeBytes c.encode = blank c.freeBytes (data.take (declaredLength data))

/-- The header of a message of the length, behind the version. -/
def headerRest (c : Command) (length : Nat) : List UInt8 :=
  beBytes 3 length ++
    toBeBytes (c.flags.toUInt32 <<< 24 ||| (c.code &&& 0x00FFFFFF)) ++
    toBeBytes c.applicationId ++ toBeBytes c.hopByHopId ++ toBeBytes c.endToEndId

theorem length_headerRest (length : Nat) : (c.headerRest length).length = 19 := by
  simp [headerRest]

/-- The five words of a header. -/
theorem take_twenty (data : List UInt8) :
    data.take 20 = (data.drop 0).take 4 ++ (data.drop 4).take 4 ++ (data.drop 8).take 4 ++
      (data.drop 12).take 4 ++ (data.drop 16).take 4 := by
  show data.take (4 + 4 + 4 + 4 + 4) = _
  rw [List.take_add, List.take_add, List.take_add, List.take_add]
  rfl

/-- What a decoded command was read from. -/
theorem header_of_decode (h : decode data = .ok c) :
    declaredLength data ≤ data.length ∧ Reads data (declaredLength data) 20 c.avps ∧
      ∃ version, data.take 20 = version :: c.headerRest (declaredLength data) := by
  unfold decode at h
  split at h
  · cases h
  rename_i hshort
  have hlength := declaredLength_eq (s := data) (by omega)
  simp only [← hlength] at h
  split at h
  · cases h
  rename_i hle
  split at h
  · rename_i avps hloop
    obtain rfl := Except.ok.inj h
    obtain ⟨_, rfl, hreads⟩ := reads_of_decodeAvps hloop
    refine ⟨by omega, hreads, data[0], ?_⟩
    have hlow : beBytes 3 (declaredLength data) = [data[1], data[2], data[3]] := by
      rw [hlength, beBytes_and_low24]
      exact congrArg List.tail (toBeBytes_fromBeBytes rfl)
    have hcode : beBytes 3 (fromBeBytes [data[4], data[5], data[6], data[7]]).toNat =
        [data[5], data[6], data[7]] :=
      congrArg List.tail (toBeBytes_fromBeBytes rfl)
    rw [take_twenty, take_four (by omega), take_four (by omega), take_four (by omega),
      take_four (by omega), take_four (by omega)]
    rw [headerRest, hlow, toBeBytes_word, beBytes_and_low24, hcode, toBeBytes_fromBeBytes rfl,
      toBeBytes_fromBeBytes rfl, toBeBytes_fromBeBytes rfl]
    rfl
  · cases h

/-- The header is written with version 1. -/
theorem encode_eq_header (hfilled : 20 + paddedLength c.avps = declaredLength data) :
    c.encode = (1 :: c.headerRest (declaredLength data)) ++ c.avps.flatMap Avp.encode := by
  have hlow : beBytes 3 (declaredLength data).toUInt32.toNat = beBytes 3 (declaredLength data) := by
    rw [Nat.toUInt32_eq, UInt32.toNat_ofNat']
    exact beBytes_mod 3 _ 4 (by omega)
  have hversion : toBeBytes (0x01000000 ||| ((declaredLength data).toUInt32 &&& 0x00FFFFFF)) =
      1 :: beBytes 3 (declaredLength data) := by
    rw [← hlow]
    exact toBeBytes_word 1 _
  rw [paddedLength] at hfilled
  rw [encode, hfilled, hversion]
  rfl

/-- **Which bytes a command stands for.** A decoded command fills the declared length of its
bytes, and is written as them, exactly if that length covers the header and the length
fields of the AVPs lead to its end. -/
theorem laidOut_iff (h : decode data = .ok c) :
    c.LaidOut data ↔
      20 ≤ declaredLength data ∧ Fills data (declaredLength data) 20 := by
  obtain ⟨hle, hreads, version, hheader⟩ := header_of_decode h
  rw [fills_iff hreads]
  constructor
  · exact fun hlaid => ⟨hlaid.header, hlaid.filled⟩
  · intro hboth
    obtain ⟨hcovers, hfilled⟩ := hboth
    refine ⟨hcovers, hle, hfilled, ?_, ?_, ?_⟩
    · intro before a after hsplit
      rw [hsplit] at hreads hfilled
      have hd := decode_of_reads hreads
      have hend := Avp.totalLength_le_padded hd
      have hsum : paddedLength (a :: after) =
          a.totalLengthIncludingPadding.toNat + paddedLength after := List.sum_cons
      rw [paddedLength_append, hsum] at hfilled
      exact ⟨hd, by omega⟩
    · rw [length_encode, length_of_reads hreads, hfilled]
    · have htake : data.take (declaredLength data) =
          data.take 20 ++ (data.drop 20).take (paddedLength c.avps) := by
        rw [← hfilled, List.take_add]
      have hmask : ∀ v : UInt8, (true :: List.replicate 19 false).length =
          (v :: c.headerRest (declaredLength data)).length := by
        intro v
        rw [List.length_cons, List.length_cons, List.length_replicate, length_headerRest]
      rw [htake, hheader, encode_eq_header hfilled, freeBytes, blank_append (hmask 1),
        blank_append (hmask version), blank_of_reads hreads hfilled hle]
      -- the versions stand at a free position
      rfl

theorem decode_of_decodeAvps {avps : List Avp} (hshort : 20 ≤ data.length)
    (hle : declaredLength data ≤ data.length)
    (hloop : decodeAvps data (declaredLength data) 20 [] = .ok avps) :
    ∃ c, decode data = .ok c ∧ c.avps = avps := by
  unfold decode
  rw [dif_neg (by omega)]
  simp only [← declaredLength_eq hshort]
  rw [if_neg (by omega), hloop]
  exact ⟨_, rfl, rfl⟩

/-- A Device-Watchdog-Request of a declared length, with the bytes behind its header. -/
def watchdogBytes (version length : UInt8) (rest : List UInt8) : List UInt8 :=
  [version, 0, 0, length, 0x80, 0, 1, 24, 0, 0, 0, 0, 0, 0, 0, 1, 0, 0, 0, 1] ++ rest

/-- An `Origin-Host` AVP of three bytes, which needs one byte of padding. -/
def hostBytes : List UInt8 := [0, 0, 1, 8, 0x40, 0, 0, 11, 97, 98, 99, 255]

theorem decode_hostBytes : Avp.decode hostBytes = .ok (.new 264 0x40 none [97, 98, 99]) := rfl

/-- A message of another version, with padding that is not zero. -/
theorem laidOut_iff_watchdogBytes :
    ∃ c, decode (watchdogBytes 7 32 hostBytes) = .ok c ∧
      c.LaidOut (watchdogBytes 7 32 hostBytes) := by
  have hloop : decodeAvps (watchdogBytes 7 32 hostBytes) 32 20 [] = _ :=
    decodeAvps_of_ok (by omega) decode_hostBytes
  obtain ⟨c, hc, -⟩ := decode_of_decodeAvps (by decide) (by decide)
    (hloop.trans (decodeAvps_of_lt (by decide)))
  have hfills : Fills (watchdogBytes 7 32 hostBytes) 32 20 := .next (by omega) .done
  exact ⟨c, hc, (laidOut_iff hc).mpr ⟨by decide, hfills⟩⟩

/-- A length below the header, bytes behind the last AVP, and an AVP beyond the length. -/
theorem not_laidOut_watchdogBytes :
    (∃ c, decode (watchdogBytes 1 0 []) = .ok c ∧ ¬c.LaidOut (watchdogBytes 1 0 [])) ∧
      (∃ c, decode (watchdogBytes 1 24 [1, 2, 3, 4]) = .ok c ∧
        ¬c.LaidOut (watchdogBytes 1 24 [1, 2, 3, 4])) ∧
      ∃ c, decode (watchdogBytes 1 28 hostBytes) = .ok c ∧
        ¬c.LaidOut (watchdogBytes 1 28 hostBytes) := by
  refine ⟨?_, ?_, ?_⟩
  · have hloop : decodeAvps (watchdogBytes 1 0 []) 0 20 [] = .ok [] :=
      decodeAvps_of_lt (by decide)
    obtain ⟨c, hc, -⟩ := decode_of_decodeAvps (by decide) (by decide) hloop
    exact ⟨c, hc, fun hlaid => absurd hlaid.header (by decide)⟩
  · have hloop : decodeAvps (watchdogBytes 1 24 [1, 2, 3, 4]) 24 20 [] = .ok [] :=
      decodeAvps_of_lt (by decide)
    obtain ⟨c, hc, havps⟩ := decode_of_decodeAvps (by decide) (by decide) hloop
    refine ⟨c, hc, fun hlaid => ?_⟩
    have hfilled := hlaid.filled
    rw [havps] at hfilled
    exact absurd hfilled (by decide)
  · have hloop : decodeAvps (watchdogBytes 1 28 hostBytes) 28 20 [] = _ :=
      decodeAvps_of_ok (by omega) decode_hostBytes
    obtain ⟨c, hc, havps⟩ := decode_of_decodeAvps (by decide) (by decide)
      (hloop.trans (decodeAvps_of_lt (by decide)))
    refine ⟨c, hc, fun hlaid => ?_⟩
    have hinside := (hlaid.inside [] _ [] havps).2
    exact absurd hinside (by decide)

end

end Command

end RestDiameterBridge
