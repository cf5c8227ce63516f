import RestDiameterBridge.Lib.Separators

/-!
# RestDiameterBridge.Lib.AddressText

IP addresses as texts: IPv4 as four decimal numbers, IPv6 as eight hexadecimal ones, all
written out.
-/

namespace AddressText

/-! ### Numbers -/

def digitChar (d : Nat) : Char := if d < 10 then Char.ofNat (d + 48) else Char.ofNat (d - 10 + 97)

/-- The value of a digit, with letters of either case. -/
def digitValue (c : Char) : Option Nat :=
  if c.isDigit then some (c.toNat - 48)
  else if 'a' ≤ c ∧ c ≤ 'f' then some (c.toNat - 97 + 10)
  else if 'A' ≤ c ∧ c ≤ 'F' then some (c.toNat - 65 + 10)
  else none

theorem digitValue_digitChar : ∀ d < 16, digitValue (digitChar d) = some d := by decide

theorem digitChar_ne : ∀ d < 16, digitChar d ≠ '.' ∧ digitChar d ≠ ':' := by decide

/-- Digits without leading zeros. -/
def trim : List Nat → List Nat
  | [] => []
  | [d] => [d]
  | d :: e :: ds => if d = 0 then trim (e :: ds) else d :: e :: ds

/-- The number that is written with the digits, the highest first. -/
def number (base : Nat) (digits : List Nat) : Nat := digits.foldl (fun n d => base * n + d) 0

/-- A number of so many digits at most. Unless zeros are allowed in front, it starts with none. -/
def readNumber (base maxDigits : Nat) (zeroPrefix : Bool) (s : List Char) : Option Nat :=
  match s.mapM digitValue with
  | some digits =>
      if digits ≠ [] ∧ digits.length ≤ maxDigits ∧ (∀ d ∈ digits, d < base) ∧
          (zeroPrefix = true ∨ trim digits = digits) then
        some (number base digits)
      else none
  | none => none

theorem number_trim (base : Nat) (digits : List Nat) :
    number base (trim digits) = number base digits := by
  fun_induction trim digits with
  | case1 | case2 | case4 => rfl
  | case3 e ds ih =>
    rw [ih]
    simp [number]

theorem trim_trim (digits : List Nat) : trim (trim digits) = trim digits := by
  fun_induction trim digits with
  | case1 | case2 => rfl
  | case3 e ds ih => exact ih
  | case4 d e ds hd => rw [trim, if_neg hd]

theorem trim_suffix (digits : List Nat) : trim digits <:+ digits := by
  fun_induction trim digits with
  | case1 | case2 | case4 => exact List.suffix_refl _
  | case3 e ds ih => exact ih.trans (List.suffix_cons 0 (e :: ds))

theorem trim_ne_nil {digits : List Nat} (h : digits ≠ []) : trim digits ≠ [] := by
  fun_induction trim digits with
  | case1 => exact h
  | case2 | case4 => simp
  | case3 e ds ih => exact ih (by simp)

theorem mapM_map {α β : Type} {f : α → β} {g : β → Option α} {as : List α}
    (h : ∀ a ∈ as, g (f a) = some a) : (as.map f).mapM g = some as := by
  induction as with
  | nil => rfl
  | cons a as ih =>
    rw [List.map_cons, List.mapM_cons, h a List.mem_cons_self,
      ih fun b hb => h b (List.mem_cons_of_mem a hb)]
    rfl

/-- The digits of a number as a text. -/
def numeral (digits : List Nat) : List Char := (trim digits).map digitChar

theorem readNumber_numeral {base maxDigits : Nat} {zeroPrefix : Bool} {digits : List Nat}
    (hbase : base ≤ 16) (hdigits : ∀ d ∈ digits, d < base) (hne : digits ≠ [])
    (hmax : digits.length ≤ maxDigits) :
    readNumber base maxDigits zeroPrefix (numeral digits) = some (number base digits) := by
  have hsub := trim_suffix digits
  have hread : (numeral digits).mapM digitValue = some (trim digits) :=
    mapM_map fun d hd => digitValue_digitChar d (by
      have hlt := hdigits d (hsub.subset hd)
      omega)
  have hlength := hsub.length_le
  rw [readNumber, hread]
  dsimp only
  rw [if_pos ⟨trim_ne_nil hne, by omega, fun d hd => hdigits d (hsub.subset hd),
    .inr (trim_trim digits)⟩, number_trim]

theorem numeral_plain {digits : List Nat} (hdigits : ∀ d ∈ digits, d < 16) :
    '.' ∉ numeral digits ∧ ':' ∉ numeral digits := by
  have hplain : ∀ c ∈ numeral digits, c ≠ '.' ∧ c ≠ ':' := by
    intro c hc
    obtain ⟨d, hd, rfl⟩ := List.mem_map.mp hc
    exact digitChar_ne d (hdigits d ((trim_suffix digits).subset hd))
  exact ⟨fun h => (hplain _ h).1 rfl, fun h => (hplain _ h).2 rfl⟩

/-! ### IPv4 -/

/-- The decimal digits of a byte. -/
def octetDigits (b : UInt8) : List Nat := [b.toNat / 100, b.toNat / 10 % 10, b.toNat % 10]

def ipv4 (ip : List UInt8) : List Char := ['.'].intercalate (ip.map fun b => numeral (octetDigits b))

/-- One of the numbers. -/
def readOctet (s : List Char) : Option UInt8 :=
  match readNumber 10 3 false s with
  | some n => if n < 256 then some (.ofNat n) else none
  | none => none

def readIpv4 (s : List Char) : Option (Vector UInt8 4) :=
  match (s.splitOn '.').mapM readOctet with
  | some ip => if h : ip.length = 4 then some ⟨ip.toArray, h⟩ else none
  | none => none

theorem octetDigits_lt (b : UInt8) : ∀ d ∈ octetDigits b, d < 10 := by
  have hb := b.toNat_lt
  intro d hd
  simp only [octetDigits, List.mem_cons, List.not_mem_nil, or_false] at hd
  omega

theorem readOctet_numeral (b : UInt8) : readOctet (numeral (octetDigits b)) = some b := by
  have hb := b.toNat_lt
  have hnumber : number 10 (octetDigits b) = b.toNat := by
    simp only [number, octetDigits, List.foldl_cons, List.foldl_nil]
    omega
  rw [readOctet, readNumber_numeral (by decide) (octetDigits_lt b) (by simp [octetDigits]) (by
    simp [octetDigits]), hnumber]
  simp only [hb, if_true, UInt8.ofNat_toNat]

/-- What is written is read back. -/
theorem readIpv4_ipv4 (ip : Vector UInt8 4) : readIpv4 (ipv4 ip.toList) = some ip := by
  have hplain : ∀ l ∈ ip.toList.map fun b => numeral (octetDigits b), '.' ∉ l := by
    intro l hl
    obtain ⟨b, -, rfl⟩ := List.mem_map.mp hl
    exact (numeral_plain fun d hd => Nat.lt_trans (octetDigits_lt b d hd) (by decide)).1
  have hne : (ip.toList.map fun b => numeral (octetDigits b)) ≠ [] := by
    intro hnil
    have hlength := congrArg List.length hnil
    simp at hlength
  rw [readIpv4, ipv4, List.splitOn_intercalate '.' hplain hne,
    mapM_map fun b _ => readOctet_numeral b]
  simp [Vector.toList]

/-! ### IPv6 -/

/-- The hexadecimal digits of two bytes. -/
def groupDigits (a b : UInt8) : List Nat :=
  [a.toNat / 16, a.toNat % 16, b.toNat / 16, b.toNat % 16]

/-- Two bytes at a time. -/
def groups : List UInt8 → List (UInt8 × UInt8)
  | a :: b :: rest => (a, b) :: groups rest
  | _ => []

def ipv6 (ip : List UInt8) : List Char :=
  [':'].intercalate ((groups ip).map fun p => numeral (groupDigits p.1 p.2))

/-- One of the numbers, as two bytes. -/
def readGroup (s : List Char) : Option (UInt8 × UInt8) :=
  (readNumber 16 4 true s).map fun n => (.ofNat (n / 256), .ofNat (n % 256))

def readIpv6 (s : List Char) : Option (Vector UInt8 16) :=
  match (s.splitOn ':').mapM readGroup with
  | some pairs =>
      let ip := pairs.flatMap fun p => [p.1, p.2]
      if h : ip.length = 16 then some ⟨ip.toArray, h⟩ else none
  | none => none

theorem groupDigits_lt (a b : UInt8) : ∀ d ∈ groupDigits a b, d < 16 := by
  have ha := a.toNat_lt
  have hb := b.toNat_lt
  intro d hd
  simp only [groupDigits, List.mem_cons, List.not_mem_nil, or_false] at hd
  omega

theorem readGroup_numeral (p : UInt8 × UInt8) : readGroup (numeral (groupDigits p.1 p.2)) = some p := by
  obtain ⟨a, b⟩ := p
  have ha := a.toNat_lt
  have hb := b.toNat_lt
  have hnumber : number 16 (groupDigits a b) = a.toNat * 256 + b.toNat := by
    simp only [number, groupDigits, List.foldl_cons, List.foldl_nil]
    omega
  have hhigh : (a.toNat * 256 + b.toNat) / 256 = a.toNat := by omega
  have hlow : (a.toNat * 256 + b.toNat) % 256 = b.toNat := by omega
  rw [readGroup, readNumber_numeral (by decide) (groupDigits_lt a b) (by simp [groupDigits]) (by
    simp [groupDigits]), hnumber]
  simp [hhigh, hlow]

theorem flatMap_groups {ip : List UInt8} (h : ip.length % 2 = 0) :
    (groups ip).flatMap (fun p => [p.1, p.2]) = ip := by
  fun_induction groups ip with
  | case1 a b rest ih =>
    simp only [List.length_cons] at h
    rw [List.flatMap_cons, ih (by omega)]
    rfl
  | case2 ip hshort =>
    match ip, hshort, h with
    | [], _, _ => rfl
    | [a], _, h => simp at h
    | a :: b :: rest, hshort, _ => exact absurd rfl (hshort a b rest)

/-- What is written is read back. -/
theorem readIpv6_ipv6 (ip : Vector UInt8 16) : readIpv6 (ipv6 ip.toList) = some ip := by
  have hflat : (groups ip.toList).flatMap (fun p => [p.1, p.2]) = ip.toList :=
    flatMap_groups (by simp)
  have hplain : ∀ l ∈ (groups ip.toList).map fun p => numeral (groupDigits p.1 p.2), ':' ∉ l := by
    intro l hl
    obtain ⟨p, -, rfl⟩ := List.mem_map.mp hl
    exact (numeral_plain (groupDigits_lt p.1 p.2)).2
  have hne : ((groups ip.toList).map fun p => numeral (groupDigits p.1 p.2)) ≠ [] := by
    intro hnil
    rw [List.map_eq_nil_iff.mp hnil] at hflat
    have hlength := congrArg List.length hflat
    simp at hlength
  rw [readIpv6, ipv6, List.splitOn_intercalate ':' hplain hne,
    mapM_map fun p _ => readGroup_numeral p]
  dsimp only
  rw [dif_pos (by rw [hflat]; simp)]
  exact congrArg some (Vector.toArray_inj.mp
    (by simpa [Vector.toList] using congrArg List.toArray hflat))

/-- And is no IPv4 address. -/
theorem readIpv4_ipv6 (ip : List UInt8) : readIpv4 (ipv6 ip) = none := by
  have hplain : '.' ∉ ipv6 ip := by
    intro hmem
    rcases Separators.mem_of_mem_intercalate hmem with heq | ⟨l, hl, hdot⟩
    · exact absurd heq (by decide)
    · obtain ⟨p, -, rfl⟩ := List.mem_map.mp hl
      exact (numeral_plain (groupDigits_lt p.1 p.2)).1 hdot
  rw [readIpv4, List.splitOn_eq_singleton hplain]
  cases hread : readOctet (ipv6 ip) with
  | none => simp [hread]
  | some b => simp [hread]

end AddressText
