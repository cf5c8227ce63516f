import Mathlib.Data.List.Basic

/-!
# RestDiameterBridge.Lib.Base64

Base64 with the standard alphabet and padding, as it is written and as it is read: a text is
refused if its padding is missing, or hides bits that are not zero.
-/

namespace Base64

/-- The digit for six bits. -/
def digit (n : Nat) : Char :=
  if n < 26 then Char.ofNat (n + 65)
  else if n < 52 then Char.ofNat (n - 26 + 97)
  else if n < 62 then Char.ofNat (n - 52 + 48)
  else if n = 62 then '+'
  else '/'

/-- The six bits of a digit. -/
def value (c : Char) : Option Nat :=
  if c.isUpper then some (c.toNat - 65)
  else if c.isLower then some (c.toNat - 97 + 26)
  else if c.isDigit then some (c.toNat - 48 + 52)
  else if c = '+' then some 62
  else if c = '/' then some 63
  else none

theorem value_digit : ∀ n < 64, value (digit n) = some n := by decide

theorem digit_ne_pad : ∀ n < 64, digit n ≠ '=' := by decide

/-- Three bytes at a time are four digits. -/
def encode : List UInt8 → List Char
  | [] => []
  | [a] =>
      let n := a.toNat * 16
      [digit (n / 64), digit (n % 64), '=', '=']
  | [a, b] =>
      let n := a.toNat * 1024 + b.toNat * 4
      [digit (n / 4096), digit (n / 64 % 64), digit (n % 64), '=']
  | a :: b :: c :: rest =>
      let n := a.toNat * 65536 + b.toNat * 256 + c.toNat
      digit (n / 262144) :: digit (n / 4096 % 64) :: digit (n / 64 % 64) :: digit (n % 64) ::
        encode rest

/-- The one or two bytes in front of the padding. -/
def decodeLast (w x y : Char) : Option (List UInt8) := do
  let w ← value w
  let x ← value x
  if y = '=' then
    let n := w * 64 + x
    if n % 16 = 0 then some [.ofNat (n / 16)] else none
  else
    let y ← value y
    let n := (w * 64 + x) * 64 + y
    if n % 4 = 0 then some [.ofNat (n / 1024), .ofNat (n / 4 % 256)] else none

/-- Four digits at a time are three bytes. -/
def decode : List Char → Option (List UInt8)
  | [] => some []
  | w :: x :: y :: z :: rest =>
      if z = '=' then
        if rest.isEmpty then decodeLast w x y else none
      else do
        let n := (((← value w) * 64 + (← value x)) * 64 + (← value y)) * 64 + (← value z)
        let rest ← decode rest
        some (.ofNat (n / 65536) :: .ofNat (n / 256 % 256) :: .ofNat (n % 256) :: rest)
  | _ => none

theorem ofNat_eq {n : Nat} {b : UInt8} (h : n = b.toNat) : UInt8.ofNat n = b := by
  rw [h, UInt8.ofNat_toNat]

/-- What is written is read back. -/
theorem decode_encode (data : List UInt8) : decode (encode data) = some data := by
  fun_induction encode data with
  | case1 => rfl
  | case2 a n =>
    have ha := a.toNat_lt
    have hn : n = a.toNat * 16 := rfl
    rw [decode, if_pos rfl, List.isEmpty_nil, if_pos rfl, decodeLast, value_digit _ (by omega),
      value_digit _ (by omega)]
    simp only [Option.bind_eq_bind, Option.bind_some, if_true]
    rw [if_pos (by omega), ofNat_eq (b := a) (by omega)]
  | case3 a b n =>
    have ha := a.toNat_lt
    have hb := b.toNat_lt
    have hn : n = a.toNat * 1024 + b.toNat * 4 := rfl
    rw [decode, if_pos rfl, List.isEmpty_nil, if_pos rfl, decodeLast, value_digit _ (by omega),
      value_digit _ (by omega), value_digit _ (by omega)]
    simp only [Option.bind_eq_bind, Option.bind_some]
    rw [if_neg (digit_ne_pad _ (by omega)), if_pos (by omega), ofNat_eq (b := a) (by omega),
      ofNat_eq (b := b) (by omega)]
  | case4 a b c rest n ih =>
    have ha := a.toNat_lt
    have hb := b.toNat_lt
    have hc := c.toNat_lt
    have hn : n = a.toNat * 65536 + b.toNat * 256 + c.toNat := rfl
    rw [decode, if_neg (digit_ne_pad _ (by omega)), value_digit _ (by omega),
      value_digit _ (by omega), value_digit _ (by omega), value_digit _ (by omega), ih]
    simp only [Option.bind_eq_bind, Option.bind_some]
    rw [ofNat_eq (b := a) (by omega), ofNat_eq (b := b) (by omega), ofNat_eq (b := c) (by omega)]

end Base64
