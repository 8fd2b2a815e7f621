import Mathlib

/-!
# Decimal numbers in Go's `strconv` and `fmt`

`strconv.ParseUint(s, 10, 64)` and `strconv.Atoi(s)` as the values they return, an error being
`none`; `strings.Split` on one separator; and the decimal form `fmt` prints an integer in for
`%v`. A string is its list of characters. Printing and then parsing gives the number back
(`parseUint_decimal`, `atoi_decimalInt`).
-/

namespace GoStd

/-- The decimal digits `fmt` prints for `%v` of an unsigned integer. -/
def decimal (n : ℕ) : List Char := Nat.toDigits 10 n

/-- `%v` of a signed integer: a minus sign before the digits of a negative one. -/
def decimalInt (x : ℤ) : List Char := if x < 0 then '-' :: decimal x.natAbs else decimal x.toNat

/-- The loop of `ParseUint` in base 10: a value for a non-empty string of digits. -/
def decimalValue (s : List Char) : Option ℕ :=
  if s ≠ [] ∧ s.all Char.isDigit then some (Nat.ofDigitChars 10 s 0) else none

/-- `strconv.ParseUint(s, 10, 64)`: out of range above `2^64 - 1`. -/
def parseUint (s : List Char) : Option UInt64 :=
  (decimalValue s).bind fun v => if v < 2 ^ 64 then some (UInt64.ofNat v) else none

/-- `strconv.Atoi(s)` on a 64-bit platform: a sign, then digits, in the range of `int`. The fast
path for strings shorter than 19 bytes reads the same digits, which cannot leave the range. -/
def atoi : List Char → Option ℤ
  | '-' :: d => (decimalValue d).bind fun v => if v ≤ 2 ^ 63 then some (-(v : ℤ)) else none
  | '+' :: d => (decimalValue d).bind fun v => if v < 2 ^ 63 then some (v : ℤ) else none
  | d => (decimalValue d).bind fun v => if v < 2 ^ 63 then some (v : ℤ) else none

/-- `strings.Split(s, sep)` for a one-character separator. -/
def split (s : List Char) (sep : Char) : List (List Char) := s.splitOn sep

theorem isDigit_of_mem_decimal {n : ℕ} {c : Char} (hc : c ∈ decimal n) : c.isDigit = true :=
  Nat.isDigit_of_mem_toDigits (by norm_num) (by norm_num) hc

theorem decimalValue_decimal (n : ℕ) : decimalValue (decimal n) = some n := by
  have hdigits : (decimal n).all Char.isDigit = true :=
    List.all_eq_true.mpr fun c hc => isDigit_of_mem_decimal hc
  rw [decimalValue, if_pos ⟨Nat.toDigits_ne_nil, hdigits⟩, decimal,
    Nat.ofDigitChars_toDigits (by norm_num) (by norm_num)]

theorem parseUint_decimal (n : UInt64) : parseUint (decimal n.toNat) = some n := by
  rw [parseUint, decimalValue_decimal, Option.bind_some, if_pos n.toNat_lt, UInt64.ofNat_toNat]

theorem decimal_ne_cons_sign (n : ℕ) (d : List Char) :
    decimal n ≠ '-' :: d ∧ decimal n ≠ '+' :: d := by
  constructor <;> intro h
  · exact absurd (isDigit_of_mem_decimal (h ▸ List.mem_cons_self ..)) (by decide)
  · exact absurd (isDigit_of_mem_decimal (h ▸ List.mem_cons_self ..)) (by decide)

theorem atoi_decimal {n : ℕ} (hn : n < 2 ^ 63) : atoi (decimal n) = some (n : ℤ) := by
  unfold atoi
  split
  · exact absurd ‹_› (decimal_ne_cons_sign n _).1
  · exact absurd ‹_› (decimal_ne_cons_sign n _).2
  · rw [decimalValue_decimal, Option.bind_some, if_pos hn]

theorem atoi_decimalInt {x : ℤ} (hx : -2 ^ 63 ≤ x ∧ x < 2 ^ 63) : atoi (decimalInt x) = some x := by
  unfold decimalInt
  split_ifs with hneg
  · rw [atoi, decimalValue_decimal, Option.bind_some, if_pos (by omega)]
    congr 1
    omega
  · rw [atoi_decimal (by omega), Int.toNat_of_nonneg (by omega)]

theorem not_mem_decimalInt_of_not_isDigit {c : Char} (hc : c.isDigit = false) (hm : c ≠ '-')
    (x : ℤ) : c ∉ decimalInt x := by
  intro h
  unfold decimalInt at h
  split_ifs at h
  · rcases List.mem_cons.mp h with h | h
    · exact hm h
    · rw [isDigit_of_mem_decimal h] at hc
      cases hc
  · rw [isDigit_of_mem_decimal h] at hc
    cases hc

end GoStd
