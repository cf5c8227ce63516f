import Mathlib.Tactic.Ring
import Mathlib.Algebra.Order.Ring.Nat

/-!
# RestDiameterBridge.Lib.Bytes

Big-endian byte strings and alignment padding, the arithmetic under every wire
format of the development.

* `beBytes w n` writes the low `w` bytes of `n`, most significant byte first, and
  `beValue` reads a byte string back. The two are inverse on numbers below
  `256 ^ w` (`beValue_beBytes`) and on strings of length `w` (`beBytes_beValue`).
* `toBeBytes`/`fromBeBytes` are the 32-bit instances.
* `padLen k n` is the number of filler bytes that bring `n` up to a multiple of
  `k`.
* `blank mask l` forgets the free positions of `l`, such as filler.
-/

namespace Bytes

/-! ### Big-endian numbers -/

/-- The number a byte string denotes, most significant byte first. -/
def beValue : List UInt8 → Nat
  | [] => 0
  | b :: bs => b.toNat * 256 ^ bs.length + beValue bs

/-- The low `w` bytes of `n`, most significant byte first. -/
def beBytes : Nat → Nat → List UInt8
  | 0, _ => []
  | w + 1, n => UInt8.ofNat (n / 256 ^ w) :: beBytes w n

@[simp] theorem beValue_nil : beValue [] = 0 := rfl
@[simp] theorem beBytes_zero (n : Nat) : beBytes 0 n = [] := rfl

@[simp] theorem length_beBytes (w n : Nat) : (beBytes w n).length = w := by
  induction w with
  | zero => rfl
  | succ w ih => simp [beBytes, ih]

/-- A byte string denotes a number below `256` to its length. -/
theorem beValue_lt (bs : List UInt8) : beValue bs < 256 ^ bs.length := by
  induction bs with
  | nil => simp
  | cons b bs ih =>
    have hb : b.toNat + 1 ≤ 256 := UInt8.toNat_lt b
    calc b.toNat * 256 ^ bs.length + beValue bs
        < b.toNat * 256 ^ bs.length + 256 ^ bs.length := by omega
      _ = (b.toNat + 1) * 256 ^ bs.length := by ring
      _ ≤ 256 * 256 ^ bs.length := Nat.mul_le_mul_right _ hb
      _ = 256 ^ (b :: bs).length := by rw [List.length_cons, Nat.pow_succ]; ring

/-- Reading back the low `w` bytes of `n` gives `n` modulo `256 ^ w`. -/
theorem beValue_beBytes (w n : Nat) : beValue (beBytes w n) = n % 256 ^ w := by
  induction w with
  | zero => simp [Nat.mod_one]
  | succ w ih =>
    have hdiv : n / 256 ^ w % 256 * 256 ^ w + n % 256 ^ w = n % 256 ^ (w + 1) := by
      rw [Nat.pow_succ, Nat.mod_mul, Nat.mul_comm, Nat.add_comm]
    simpa [beBytes, beValue, ih] using hdiv

/-- Only the low bytes of the number are written. -/
theorem beBytes_mod (w n m : Nat) (h : w ≤ m) : beBytes w (n % 256 ^ m) = beBytes w n := by
  induction w with
  | zero => rfl
  | succ w ih =>
    have hsplit : 256 ^ m = 256 ^ w * 256 ^ (m - w) := by
      rw [← Nat.pow_add]; congr 1; omega
    have hbyte : UInt8.ofNat (n % 256 ^ m / 256 ^ w) = UInt8.ofNat (n / 256 ^ w) := by
      rw [hsplit, Nat.mod_mul_right_div_self]
      obtain ⟨k, hk⟩ : ∃ k, m - w = k + 1 := ⟨m - w - 1, by omega⟩
      apply UInt8.toNat_inj.mp
      simp only [UInt8.toNat_ofNat']
      rw [hk, Nat.pow_succ, Nat.mod_mod_of_dvd _ (Dvd.intro_left _ rfl)]
    simp only [beBytes, hbyte, ih (by omega)]

/-- Writing the number a byte string denotes gives the string back. -/
theorem beBytes_beValue (bs : List UInt8) : beBytes bs.length (beValue bs) = bs := by
  induction bs with
  | nil => rfl
  | cons b bs ih =>
    have hlt := beValue_lt bs
    have hhead : (b.toNat * 256 ^ bs.length + beValue bs) / 256 ^ bs.length = b.toNat := by
      rw [Nat.add_comm, Nat.add_mul_div_right _ _ (Nat.pow_pos (by omega)),
        Nat.div_eq_of_lt hlt, Nat.zero_add]
    have htail : beBytes bs.length (b.toNat * 256 ^ bs.length + beValue bs) = bs := by
      rw [← beBytes_mod _ _ _ (Nat.le_refl bs.length), Nat.add_comm,
        Nat.add_mul_mod_self_right, Nat.mod_eq_of_lt hlt, ih]
    simp only [List.length_cons, beBytes, beValue, hhead, htail, UInt8.ofNat_toNat]

/-! ### 32-bit numbers -/

/-- The four big-endian bytes of a 32-bit number. -/
def toBeBytes (x : UInt32) : List UInt8 := beBytes 4 x.toNat

/-- The 32-bit number a big-endian byte string denotes. -/
def fromBeBytes (bs : List UInt8) : UInt32 := UInt32.ofNat (beValue bs)

@[simp] theorem length_toBeBytes (x : UInt32) : (toBeBytes x).length = 4 :=
  length_beBytes 4 _

@[simp] theorem fromBeBytes_toBeBytes (x : UInt32) : fromBeBytes (toBeBytes x) = x := by
  have hx : x.toNat < 256 ^ 4 := UInt32.toNat_lt x
  rw [fromBeBytes, toBeBytes, beValue_beBytes, Nat.mod_eq_of_lt hx, UInt32.ofNat_toNat]

/-- A string of at most four bytes keeps its value as a 32-bit number. -/
theorem toNat_fromBeBytes {bs : List UInt8} (h : bs.length ≤ 4) :
    (fromBeBytes bs).toNat = beValue bs := by
  have hlt : beValue bs < 2 ^ 32 :=
    Nat.lt_of_lt_of_le (beValue_lt bs) (Nat.pow_le_pow_right (n := 256) (by omega) h)
  rw [fromBeBytes, UInt32.toNat_ofNat', Nat.mod_eq_of_lt hlt]

/-- Writing the number that four bytes denote gives them back. -/
theorem toBeBytes_fromBeBytes {bs : List UInt8} (h : bs.length = 4) :
    toBeBytes (fromBeBytes bs) = bs := by
  rw [toBeBytes, toNat_fromBeBytes h.le, ← h, beBytes_beValue]

/-- Four elements of a list, one by one. -/
theorem take_four {α : Type} {l : List α} {i : Nat} (h : i + 4 ≤ l.length) :
    (l.drop i).take 4 = [l[i], l[i + 1], l[i + 2], l[i + 3]] := by
  rw [List.drop_eq_getElem_cons (by omega), List.drop_eq_getElem_cons (by omega),
    List.drop_eq_getElem_cons (by omega), List.drop_eq_getElem_cons (by omega)]
  rfl

/-! ### Words of one octet over 24 bits -/

/-- Masking with `0x00FFFFFF` keeps the low 24 bits. -/
theorem toNat_and_low24 (x : UInt32) : (x &&& 0x00FFFFFF).toNat = x.toNat % 2 ^ 24 := by
  rw [UInt32.toNat_and]
  exact Nat.and_two_pow_sub_one_eq_mod x.toNat 24

/-- The three low bytes of a number. -/
theorem fromBeBytes_drop_one (x : UInt32) :
    fromBeBytes (0 :: (toBeBytes x).drop 1) = x &&& 0x00FFFFFF := by
  have hdrop : (toBeBytes x).drop 1 = beBytes 3 x.toNat := rfl
  have hvalue : beValue (0 :: beBytes 3 x.toNat) = x.toNat % 2 ^ 24 := by
    simp only [beValue, beValue_beBytes, UInt8.toNat_zero, Nat.zero_mul, Nat.zero_add]
    rfl
  apply UInt32.toNat_inj.mp
  rw [toNat_and_low24, ← hvalue, hdrop]
  exact toNat_fromBeBytes (by simp)

/-- The three low bytes are those of the masked number. -/
theorem beBytes_and_low24 (x : UInt32) :
    beBytes 3 (x &&& 0x00FFFFFF).toNat = beBytes 3 x.toNat := by
  rw [toNat_and_low24]
  exact beBytes_mod 3 x.toNat 3 (Nat.le_refl 3)

/-- An octet shifted over a 24-bit number. -/
theorem toNat_shiftLeft_or (hi : UInt8) {lo : UInt32} (h : lo.toNat < 2 ^ 24) :
    (hi.toUInt32 <<< 24 ||| lo).toNat = hi.toNat * 2 ^ 24 + lo.toNat := by
  have hhi : hi.toNat < 2 ^ 8 := UInt8.toNat_lt hi
  have hshift : (hi.toUInt32 <<< 24).toNat = hi.toNat <<< 24 := by
    rw [UInt32.toNat_shiftLeft, UInt8.toNat_toUInt32]
    show hi.toNat <<< 24 % 2 ^ 32 = _
    rw [Nat.shiftLeft_eq]
    exact Nat.mod_eq_of_lt (by omega)
  rw [UInt32.toNat_or, hshift, ← Nat.shiftLeft_add_eq_or_of_lt h, Nat.shiftLeft_eq]

/-- An octet over the low 24 bits of a number is written as the octet and the three low bytes
of the number. -/
theorem toBeBytes_word (hi : UInt8) (lo : UInt32) :
    toBeBytes (hi.toUInt32 <<< 24 ||| (lo &&& 0x00FFFFFF)) = hi :: beBytes 3 lo.toNat := by
  have hhi : hi.toNat < 256 := UInt8.toNat_lt hi
  have hlo : (lo &&& 0x00FFFFFF).toNat < 2 ^ 24 := by
    rw [toNat_and_low24]
    exact Nat.mod_lt _ (by omega)
  have hvalue := toNat_shiftLeft_or hi hlo
  rw [toNat_and_low24] at hvalue
  have hhead : UInt8.ofNat ((hi.toUInt32 <<< 24 ||| (lo &&& 0x00FFFFFF)).toNat / 256 ^ 3) = hi := by
    apply UInt8.toNat_inj.mp
    rw [UInt8.toNat_ofNat', hvalue]
    omega
  have htail : beBytes 3 (hi.toUInt32 <<< 24 ||| (lo &&& 0x00FFFFFF)).toNat =
      beBytes 3 lo.toNat := by
    rw [← beBytes_mod 3 _ 3 (Nat.le_refl 3), ← beBytes_mod 3 lo.toNat 3 (Nat.le_refl 3), hvalue]
    congr 1
    omega
  show UInt8.ofNat _ :: beBytes 3 _ = hi :: beBytes 3 lo.toNat
  rw [hhead, htail]

/-! ### Padding -/

/-- The number of filler bytes that bring `n` up to a multiple of `k`. -/
def padLen (k n : Nat) : Nat := if n % k = 0 then 0 else k - n % k

/-- A length and its padding make a multiple of the alignment. -/
theorem add_padLen_mod {k : Nat} (hk : 0 < k) (n : Nat) : (n + padLen k n) % k = 0 := by
  unfold padLen
  split
  · simpa
  · have hlt := Nat.mod_lt n hk
    have hsum : n + (k - n % k) = k * (n / k + 1) := by
      have := Nat.div_add_mod n k
      rw [Nat.mul_add, Nat.mul_one]; omega
    rw [hsum, Nat.mul_mod_right]

/-- A multiple of the alignment in front does not matter. -/
theorem padLen_add_left {k m : Nat} (hm : m % k = 0) (n : Nat) : padLen k (m + n) = padLen k n := by
  unfold padLen
  rw [Nat.add_mod, hm, Nat.zero_add, Nat.mod_mod]

theorem padLen_lt {k : Nat} (hk : 0 < k) (n : Nat) : padLen k n < k := by
  unfold padLen
  split <;> omega

/-! ### Free positions -/

section
variable {α : Type} {mask mask' : List Bool} {l l' : List α}

/-- The list without what stands at the positions the mask marks. -/
def blank (mask : List Bool) (l : List α) : List (Option α) :=
  List.zipWith (fun free a => if free then none else some a) mask l

theorem blank_append (h : mask.length = l.length) :
    blank (mask ++ mask') (l ++ l') = blank mask l ++ blank mask' l' :=
  List.zipWith_append h

theorem blank_replicate_true (l : List α) :
    blank (List.replicate l.length true) l = List.replicate l.length none := by
  induction l with
  | nil => rfl
  | cons a l ih => exact congrArg (none :: ·) ih

/-- Two lists that agree in front of the filler agree outside of it. -/
theorem blank_filler {n k : Nat} (hl : l.length = n + k) (hl' : l'.length = n + k)
    (h : l.take n = l'.take n) :
    blank (List.replicate n false ++ List.replicate k true) l =
      blank (List.replicate n false ++ List.replicate k true) l' := by
  have hfiller : ∀ m : List α, m.length = n + k →
      blank (List.replicate n false ++ List.replicate k true) m =
        blank (List.replicate n false) (m.take n) ++ List.replicate k none := by
    intro m hm
    have hdrop : (m.drop n).length = k := by
      rw [List.length_drop]
      omega
    have hfront : (List.replicate n false).length = (m.take n).length := by
      rw [List.length_replicate, List.length_take]
      omega
    conv => lhs; rw [← List.take_append_drop n m]
    rw [blank_append hfront, ← hdrop, blank_replicate_true]
  rw [hfiller l hl, hfiller l' hl', h]

end

end Bytes
