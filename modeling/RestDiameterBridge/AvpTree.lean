import RestDiameterBridge.CommandJson
import RestDiameterBridge.CommandLayout

/-!
# RestDiameterBridge.AvpTree

Trees of AVPs over the wire (`Avp::from_grouped`, `encode`, `decode` and `as_grouped` in
`src/avp.rs`).

Decoding yields the header of the root and its payload as raw bytes; `as_grouped` expands
them one level. `recovers_wire` says that expanding along the tree gives the tree back, as
long as no group is empty, whose payload `as_grouped` does not take for a group, and nothing
is too long for a 24-bit length. `survivesWire_iff` says that both are necessary.
-/

namespace RestDiameterBridge

open Bytes
open Avp (forall_uint8 headerLength le_headerLength padLen_header)

/-- A tree of AVPs. Groups have neither a vendor id nor the vendor bit. -/
inductive AvpTree
  | leaf (code : UInt32) (flags : UInt8) (vendorId : Option UInt32) (data : List UInt8)
  | group (code : UInt32) (flags : UInt8) (hflags : (flags &&& 0x80 != 0) = false)
      (members : List AvpTree)

namespace AvpTree

mutual
/-- The AVP of a tree, as the constructors build it. -/
def toAvp : AvpTree → Avp
  | leaf code flags vendorId data => Avp.new code flags vendorId data
  | group code flags _ members => Avp.fromGrouped code flags none (toAvps members)
/-- The AVPs of several trees. -/
def toAvps : List AvpTree → List Avp
  | [] => []
  | t :: ts => t.toAvp :: toAvps ts
end

mutual
/-- Bytes of header and value. -/
def size : AvpTree → Nat
  | leaf _ _ vendorId data => 8 + (if vendorId.isSome then 4 else 0) + data.length
  | group _ _ _ members => 8 + sizeAll members
/-- Bytes of several trees, each with its padding. -/
def sizeAll : List AvpTree → Nat
  | [] => 0
  | t :: ts => t.size + padLen 4 t.size + sizeAll ts
end

/-- Every group has a member. -/
inductive Populated : AvpTree → Prop
  | leaf {code flags vendorId data} : Populated (.leaf code flags vendorId data)
  | group {code flags hflags members} (hne : members ≠ []) (h : ∀ t ∈ members, Populated t) :
      Populated (.group code flags hflags members)

/-- Expanding the AVP wherever the tree has a group gives the tree. -/
inductive Recovers : AvpTree → Avp → Prop
  | leaf {code flags vendorId data} :
      Recovers (.leaf code flags vendorId data) (Avp.new code flags vendorId data)
  | group {code flags hflags members as} {a : Avp} (hcode : a.code = code)
      (hbits : a.flags = flags ||| 0x40) (hvendor : a.vendorId = none)
      (hmembers : a.asGrouped = some as) (h : List.Forall₂ Recovers members as) :
      Recovers (.group code flags hflags members) a

/-- The tree survives the wire. -/
def SurvivesWire (t : AvpTree) : Prop := ∃ a, Avp.decode t.toAvp.encode = .ok a ∧ Recovers t a

/-! ### Sizes -/

theorem vendorBit_or {f : UInt8} : (f &&& 0x80 != 0) = false → (f ||| 0x40) &&& 0x80 = 0 :=
  forall_uint8 (p := fun f => (f &&& 0x80 != 0) = false → (f ||| 0x40) &&& 0x80 = 0)
    (by decide +kernel) f

mutual
theorem wellFormed_toAvp (t : AvpTree) : t.toAvp.WellFormed := by
  match t with
  | leaf code flags vendorId data => exact .scalar (Avp.new_vendorBit code flags vendorId data)
  | group code flags hflags members =>
    refine .grouped ?_ (wellFormed_toAvps members)
    rw [vendorBit_or hflags]
    rfl
theorem wellFormed_toAvps (ts : List AvpTree) : ∀ a ∈ toAvps ts, a.WellFormed := by
  match ts with
  | [] => simp [toAvps]
  | t :: ts =>
    rw [toAvps, List.forall_mem_cons]
    exact ⟨wellFormed_toAvp t, wellFormed_toAvps ts⟩
end

mutual
theorem size_eq (t : AvpTree) :
    t.size = (headerLength t.toAvp.flags).toNat + t.toAvp.payload.length := by
  match t with
  | leaf code flags vendorId data =>
    rw [size, toAvp, Avp.new_headerLength]
    cases vendorId <;> rfl
  | group code flags hflags members =>
    have hheader : (headerLength (flags ||| 0x40)).toNat = 8 := by
      rw [headerLength, vendorBit_or hflags]
      rfl
    have hpayload : (group code flags hflags members).toAvp.payload =
        (toAvps members).flatMap Avp.encode := rfl
    rw [size, hpayload, sizeAll_eq members]
    exact congrArg (· + _) hheader.symm
theorem sizeAll_eq (ts : List AvpTree) : sizeAll ts = ((toAvps ts).flatMap Avp.encode).length := by
  match ts with
  | [] => rfl
  | t :: ts =>
    have hlength := (wellFormed_toAvp t).counted.length_encode
    rw [sizeAll, toAvps, List.flatMap_cons, List.length_append, ← sizeAll_eq ts, hlength,
      size_eq t, padLen_header]
end

theorem length_encode_toAvp (t : AvpTree) : t.toAvp.encode.length = t.size + padLen 4 t.size := by
  rw [(wellFormed_toAvp t).counted.length_encode, size_eq, padLen_header]

theorem declaredLength_toAvp (t : AvpTree) : t.toAvp.declaredLength = t.size % 2 ^ 24 := by
  rw [Avp.declaredLength, size_eq]

theorem le_size (t : AvpTree) : (headerLength t.toAvp.flags).toNat ≤ t.size := by
  rw [size_eq]
  omega

theorem length_encode_le_sizeAll {ts : List AvpTree} {a : Avp} (h : a ∈ toAvps ts) :
    a.encode.length ≤ sizeAll ts := by
  rw [sizeAll_eq]
  exact Avp.length_encode_le_flatMap h

/-- Raw data of at least a header is expanded by the loop of the message decoder. -/
theorem asGrouped_eq_some_iff {a : Avp} {data : List UInt8} {as : List Avp}
    (hdata : a.data = some data) :
    a.asGrouped = some as ↔
      8 ≤ data.length ∧ Command.decodeAvps data data.length 0 [] = .ok as := by
  rw [Avp.asGrouped, hdata]
  by_cases hlong : 8 ≤ data.length
  · simp only [hlong, true_and]
    cases Command.decodeAvps data data.length 0 [] <;> simp [Except.toOption]
  · simp [hlong]

/-! ### From the tree to its expansion -/

/-- A tree that fits is decoded to its header over its payload. -/
theorem decode_encode_toAvp {t : AvpTree} (h : t.size < 2 ^ 24) :
    Avp.decode t.toAvp.encode = .ok t.toAvp.wire := by
  have hwf := wellFormed_toAvp t
  have hdecode := Avp.decode_encode_declared hwf.counted hwf.vendor []
  have hdeclared : t.toAvp.declaredLength =
      (headerLength t.toAvp.flags).toNat + t.toAvp.payload.length := by
    rw [declaredLength_toAvp, Nat.mod_eq_of_lt h, size_eq]
  rw [List.append_nil, hdeclared, if_neg (by omega), Nat.add_sub_cancel_left, List.take_length]
    at hdecode
  exact hdecode

mutual
/-- Expanding a decoded tree gives the tree. -/
theorem recovers_wire (t : AvpTree) (hpopulated : t.Populated) (hsize : t.size < 2 ^ 24) :
    Recovers t t.toAvp.wire := by
  match t, hpopulated with
  | leaf code flags vendorId data, _ => exact .leaf
  | group code flags hflags members, .group hne h =>
    rw [size] at hsize
    refine .group rfl rfl rfl ?_ (recovers_wires members h (by omega))
    have hshort : ∀ a ∈ toAvps members, a.encode.length < 2 ^ 24 := fun a ha => by
      have := length_encode_le_sizeAll ha
      omega
    have hdecode := Command.decodeAvps_flatMap (wellFormed_toAvps members) hshort [] [] []
    rw [List.nil_append, List.append_nil, List.length_nil, Nat.zero_add, List.nil_append] at hdecode
    have hlong : 8 ≤ ((toAvps members).flatMap Avp.encode).length := by
      obtain ⟨t, ts, rfl⟩ := List.exists_cons_of_ne_nil hne
      have := le_headerLength t.toAvp.flags
      have := le_size t
      rw [← sizeAll_eq, sizeAll]
      omega
    exact (asGrouped_eq_some_iff rfl).mpr ⟨hlong, hdecode⟩
theorem recovers_wires (ts : List AvpTree) (hpopulated : ∀ t ∈ ts, t.Populated)
    (hsize : sizeAll ts < 2 ^ 24) : List.Forall₂ Recovers ts ((toAvps ts).map Avp.wire) := by
  match ts with
  | [] => exact .nil
  | t :: ts =>
    rw [List.forall_mem_cons] at hpopulated
    rw [sizeAll] at hsize
    exact .cons (recovers_wire t hpopulated.1 (by omega))
      (recovers_wires ts hpopulated.2 (by omega))
end

/-! ### From the expansion to the tree -/

/-- What the loop reads does not go beyond the end of the data, rounded up. -/
theorem paddedLength_le {data : List UInt8} {offset : Nat} {as : List Avp}
    (h : Command.Reads data data.length offset as) (hoffset : offset % 4 = 0)
    (hle : offset ≤ data.length + padLen 4 data.length) :
    offset + Command.paddedLength as ≤ data.length + padLen 4 data.length := by
  induction h with
  | done => exact hle
  | @next offset a as hroom hd hreads ih =>
    have hend := add_padLen_mod (k := 4) (by omega) data.length
    have hlength := Avp.length_encode_of_decode hd
    have hmod := Avp.length_encode_mod a
    obtain ⟨-, hwf, htotal, hinside, -⟩ := Avp.decode_ok hd
    have hencode := hwf.counted.length_encode
    have hpad := padLen_lt (k := 4) (by omega) a.payload.length
    rw [List.length_drop] at hinside
    have hsum : Command.paddedLength (a :: as) =
        a.totalLengthIncludingPadding.toNat + Command.paddedLength as := List.sum_cons
    have := ih (by omega) (by omega)
    omega

mutual
/-- A decoded AVP that expands to a tree takes up as many bytes as the tree at least. -/
theorem populated_of_recovers (t : AvpTree) {a : Avp} {bytes : List UInt8}
    (hd : Avp.decode bytes = .ok a) (h : Recovers t a) :
    t.Populated ∧ t.size + padLen 4 t.size ≤ a.totalLengthIncludingPadding.toNat := by
  obtain ⟨hdata, hwf, -⟩ := Avp.decode_ok hd
  have hlength := Avp.length_encode_of_decode hd
  match t, h with
  | leaf code flags vendorId data, .leaf =>
    refine ⟨.leaf, ?_⟩
    rw [← hlength]
    exact Nat.le_of_eq (length_encode_toAvp (leaf code flags vendorId data)).symm
  | group code flags hflags members, @AvpTree.Recovers.group _ _ _ _ as _ _ hbits _ hmembers hall =>
    obtain ⟨hlong, hloop⟩ := (asGrouped_eq_some_iff hdata).mp hmembers
    obtain ⟨as', has, hreads⟩ := Command.reads_of_decodeAvps hloop
    rw [List.nil_append] at has
    subst has
    obtain ⟨hpopulated, hsize⟩ := populated_of_recovers_all members hreads hall
    refine ⟨.group ?_ hpopulated, ?_⟩
    · rintro rfl
      cases hall
      -- the loop reads one AVP at least
      cases hreads with
      | done hlt => omega
    · have hpadded := paddedLength_le hreads rfl (Nat.zero_le _)
      have hencode := hwf.counted.length_encode
      have hheader : (headerLength a.flags).toNat = 8 := by
        rw [hbits, headerLength, vendorBit_or hflags]
        rfl
      have hend := add_padLen_mod (k := 4) (by omega) a.payload.length
      have hsizeEnd := add_padLen_mod (k := 4) (by omega) (8 + sizeAll members)
      have hpad := padLen_lt (k := 4) (by omega) (8 + sizeAll members)
      rw [size]
      omega
theorem populated_of_recovers_all (ts : List AvpTree) {data : List UInt8} {length offset : Nat}
    {as : List Avp} (hreads : Command.Reads data length offset as)
    (h : List.Forall₂ Recovers ts as) :
    (∀ t ∈ ts, t.Populated) ∧ sizeAll ts ≤ Command.paddedLength as := by
  match ts, h with
  | [], _ => exact ⟨by simp, Nat.zero_le _⟩
  | t :: ts, .cons (b := a) hhead htail =>
    cases hreads with
    | next _ hd hrest =>
      obtain ⟨hpopulated, hsize⟩ := populated_of_recovers t hd hhead
      obtain ⟨hpopulateds, hsizes⟩ := populated_of_recovers_all ts hrest htail
      refine ⟨List.forall_mem_cons.mpr ⟨hpopulated, hpopulateds⟩, ?_⟩
      rw [sizeAll]
      exact Nat.le_trans (Nat.add_le_add hsize hsizes) (Nat.le_of_eq List.sum_cons.symm)
end

/-- A tree that does not fit comes back too short. -/
theorem padded_lt_of_decode {t : AvpTree} {a : Avp} (h : Avp.decode t.toAvp.encode = .ok a)
    (hlong : 2 ^ 24 ≤ t.size) :
    a.totalLengthIncludingPadding.toNat < t.size + padLen 4 t.size := by
  have hwf := wellFormed_toAvp t
  have hdecode := Avp.decode_encode_declared hwf.counted hwf.vendor []
  rw [List.append_nil, h, declaredLength_toAvp] at hdecode
  split at hdecode
  · cases hdecode
  · rename_i hcovers
    obtain ⟨-, hwf', -⟩ := Avp.decode_ok h
    have hlength := Avp.length_encode_of_decode h
    have hencode := hwf'.counted.length_encode
    have hpad := padLen_lt (k := 4) (by omega) a.payload.length
    have hpayload : a.payload.length ≤ t.size % 2 ^ 24 - (headerLength t.toAvp.flags).toNat := by
      rw [Except.ok.inj hdecode]
      exact List.length_take_le _ _
    have hflags : a.flags = t.toAvp.flags := by rw [Except.ok.inj hdecode]
    rw [hflags] at hencode
    omega

/-- **Trees over the wire.** A tree is recovered by decoding and expanding exactly if every
group in it has a member and its header and value take up less than 2 ^ 24 bytes. -/
theorem survivesWire_iff (t : AvpTree) : t.SurvivesWire ↔ t.Populated ∧ t.size < 2 ^ 24 := by
  constructor
  · intro htrips
    obtain ⟨a, hd, hrecovers⟩ := htrips
    obtain ⟨hpopulated, hsize⟩ := populated_of_recovers t hd hrecovers
    refine ⟨hpopulated, Nat.lt_of_not_le fun hlong => ?_⟩
    exact absurd (padded_lt_of_decode hd hlong) (Nat.not_lt.mpr hsize)
  · intro hboth
    exact ⟨_, decode_encode_toAvp hboth.2, recovers_wire t hboth.1 hboth.2⟩

/-- An empty group is decoded, but not taken for a group. -/
theorem not_survivesWire_empty :
    let t := group 297 0x40 rfl []
    (∃ a, Avp.decode t.toAvp.encode = .ok a ∧ a.asGrouped = none) ∧ ¬∀ t, SurvivesWire t := by
  refine ⟨⟨_, rfl, rfl⟩, ?_⟩
  intro hall
  obtain ⟨a, hd, hrecovers⟩ := hall (group 297 0x40 rfl [])
  cases (populated_of_recovers _ hd hrecovers).1 with
  | group hne => exact hne rfl

end AvpTree

end RestDiameterBridge
