set_option autoImplicit false

/-! # Double precision numbers

The values of the 64-bit binary floating point format, as data: a sign, a mantissa and a binary
exponent instead of a word of bits. A decimal numeral is rounded to the nearest of them, and a tie
goes to the even mantissa. -/

namespace StreamDispatch.Number

/-- A double precision value. A finite one is `mantissa * 2 ^ exponent`, with the mantissa below
`2 ^ 53` and, unless the exponent is the least one, at least `2 ^ 52`. -/
inductive Binary64
  | nan
  | infinite (negative : Bool)
  | finite (negative : Bool) (mantissa : Nat) (exponent : Int)
  deriving DecidableEq, Repr, Inhabited

namespace Binary64

/-- The exponent of the smallest positive value. -/
def minExponent : Int := -1074

/-- The exponent of the largest finite values. -/
def maxExponent : Int := 971

def zero (negative : Bool) : Binary64 := .finite negative 0 minExponent

/-- The nearest integer to a quotient; a half goes to the even neighbour. -/
def divideToNearestEven (numerator denominator : Nat) : Nat :=
  let q := numerator / denominator
  let twice := 2 * (numerator % denominator)
  if twice < denominator then q
  else if denominator < twice then q + 1
  else if q % 2 = 0 then q else q + 1

/-- The mantissa of `numerator / denominator` in units of `2 ^ exponent`. -/
def scaledMantissa (numerator denominator : Nat) (exponent : Int) : Nat :=
  if 0 ≤ exponent then divideToNearestEven numerator (denominator * Nat.pow 2 exponent.toNat)
  else divideToNearestEven (numerator * Nat.pow 2 (-exponent).toNat) denominator

def ofQuotient (negative : Bool) (numerator denominator : Nat) : Binary64 :=
  let magnitude : Int := (Nat.log2 numerator : Int) - Nat.log2 denominator
  let guess := magnitude - 53
  -- the guess leaves 53 or 54 bits before rounding; one step up when there are 54
  let wide := if 0 ≤ guess then numerator ≥ denominator * Nat.pow 2 guess.toNat * Nat.pow 2 53
    else numerator * Nat.pow 2 (-guess).toNat ≥ denominator * Nat.pow 2 53
  let exponent := max minExponent (if wide then guess + 1 else guess)
  let mantissa := scaledMantissa numerator denominator exponent
  let (mantissa, exponent) :=
    if mantissa = Nat.pow 2 53 then (Nat.pow 2 52, exponent + 1) else (mantissa, exponent)
  if maxExponent < exponent then .infinite negative else .finite negative mantissa exponent

/-- The value nearest to `digits * 10 ^ exponent`. Numerals far outside the range of the format are
settled by their length. -/
def ofDecimal (negative : Bool) (digits : Nat) (exponent : Int) : Binary64 :=
  if digits = 0 then zero negative
  else
    let places : Int := (Nat.toDigits 10 digits).length + exponent
    if 310 < places then .infinite negative
    else if places < -330 then zero negative
    else if 0 ≤ exponent then ofQuotient negative (digits * Nat.pow 10 exponent.toNat) 1
    else ofQuotient negative digits (Nat.pow 10 (-exponent).toNat)

def isFinite : Binary64 → Bool
  | .finite .. => true
  | _ => false

/-- Equality of numbers, in which the two zeros are one and every NaN is like every other. -/
def sameNumber : Binary64 → Binary64 → Bool
  | .finite a m e, .finite b n f => (m == 0 && n == 0) || (a == b && m == n && e == f)
  | x, y => x == y

end Binary64

end StreamDispatch.Number
