import StreamDispatch.Number.Binary64

set_option autoImplicit false

/-! # The shortest decimal of a double

The decimal with the fewest digits that reads back as a given double and, of several such, the
nearest. The reals that round to a double form an interval between the midpoints to its two
neighbours; the ends belong to it when the mantissa is even. On the grid of decimals with a given
number of digits only the two neighbours of the double itself can be nearest, so these two are tried
for one digit, two digits and so on; seventeen digits always suffice. -/

namespace StreamDispatch.Number

/-- A decimal `digits * 10 ^ exponent`. -/
structure Decimal where
  digits : Nat
  exponent : Int
  deriving DecidableEq, Repr, Inhabited

/-- The interval of the reals that round to one double, over a common denominator. -/
structure RoundingInterval where
  /-- The lower midpoint. -/
  low : Nat
  /-- The double itself. -/
  value : Nat
  /-- The upper midpoint. -/
  high : Nat
  denominator : Nat
  /-- Whether the midpoints belong to the interval. -/
  closed : Bool

namespace RoundingInterval

/-- The interval around `mantissa * 2 ^ exponent`. Below a power of two the neighbour is nearer. -/
def around (mantissa : Nat) (exponent : Int) : RoundingInterval :=
  let nearer := mantissa = Nat.pow 2 52 ∧ Binary64.minExponent < exponent
  let below := if nearer then 4 * mantissa - 1 else 4 * mantissa - 2
  let scale := if 0 ≤ exponent then Nat.pow 2 exponent.toNat else 1
  { low := below * scale
    value := 4 * mantissa * scale
    high := (4 * mantissa + 2) * scale
    denominator := 4 * (if 0 ≤ exponent then 1 else Nat.pow 2 (-exponent).toNat)
    closed := mantissa % 2 = 0 }

def holds (i : RoundingInterval) (d : Decimal) : Bool :=
  let up := if 0 ≤ d.exponent then Nat.pow 10 d.exponent.toNat else 1
  let down := if 0 ≤ d.exponent then 1 else Nat.pow 10 (-d.exponent).toNat
  let scaled := d.digits * up * i.denominator
  if i.closed then i.low * down ≤ scaled && scaled ≤ i.high * down
  else i.low * down < scaled && scaled < i.high * down

/-- The nearer of the two neighbours of the double, on the grid of the multiples of
`10 ^ exponent`, that lie in the interval. -/
def pick (i : RoundingInterval) (exponent : Int) : Option Decimal :=
  let numerator := if 0 ≤ exponent then i.value else i.value * Nat.pow 10 (-exponent).toNat
  let denominator :=
    if 0 ≤ exponent then i.denominator * Nat.pow 10 exponent.toNat else i.denominator
  let floor : Decimal := ⟨numerator / denominator, exponent⟩
  let ceiling : Decimal := ⟨numerator / denominator + 1, exponent⟩
  let floorIsNearer := 2 * (numerator % denominator) ≤ denominator
  match i.holds floor && floor.digits ≠ 0, i.holds ceiling with
  | true, true => some (if floorIsNearer then floor else ceiling)
  | true, false => some floor
  | false, true => some ceiling
  | false, false => none

/-- Tries grids from coarse to fine. -/
def search (i : RoundingInterval) : Nat → Int → Decimal
  | 0, exponent => ⟨i.value, exponent⟩
  | fuel + 1, exponent => (i.pick exponent).getD (i.search fuel (exponent - 1))

end RoundingInterval

/-- The number `k` for which a positive quotient lies from `10 ^ k` on and below `10 ^ (k + 1)`,
give or take one. -/
def decimalMagnitude (numerator denominator : Nat) : Int :=
  (Nat.toDigits 10 numerator).length - (Nat.toDigits 10 denominator).length

/-- Takes the zeros at the end of the digits into the exponent. -/
def Decimal.trimmed (d : Decimal) : Decimal :=
  let digits := Nat.toDigits 10 d.digits
  let zeros := (digits.reverse.takeWhile (· == '0')).length
  if d.digits = 0 then ⟨0, 0⟩ else ⟨d.digits / Nat.pow 10 zeros, d.exponent + zeros⟩

/-- The shortest decimal that reads back as `mantissa * 2 ^ exponent`. -/
def shortestDecimal (mantissa : Nat) (exponent : Int) : Decimal :=
  if mantissa = 0 then ⟨0, 0⟩
  else
    let i := RoundingInterval.around mantissa exponent
    (i.search 21 (decimalMagnitude i.value i.denominator + 1)).trimmed

/-! ## Writing a decimal -/

def zeros (n : Nat) : String := String.ofList (List.replicate n '0')

/-- A decimal in positional notation, with a point and at least one digit on either side of it. -/
def Decimal.positional (d : Decimal) : String :=
  let digits := toString d.digits
  if 0 ≤ d.exponent then digits ++ zeros d.exponent.toNat ++ ".0"
  else
    let places := (-d.exponent).toNat
    if places < digits.length then
      String.ofList (digits.toList.take (digits.length - places)) ++ "."
        ++ String.ofList (digits.toList.drop (digits.length - places))
    else "0." ++ zeros (places - digits.length) ++ digits

/-- A decimal with one digit before the point and a power of ten after the rest. -/
def Decimal.scientific (d : Decimal) : String :=
  let digits := toString d.digits
  let power := d.exponent + (digits.length - 1 : Nat)
  let rest := String.ofList (digits.toList.drop 1)
  String.ofList (digits.toList.take 1) ++ (if rest.isEmpty then "" else "." ++ rest)
    ++ "e" ++ toString power

/-- Which decimals are written positionally: those whose leading digit stands for a power of ten
within the bounds. -/
structure FloatStyle where
  lowest : Int
  highest : Int

/-- Every number in positional notation. -/
def FloatStyle.alwaysPositional : FloatStyle := ⟨-400, 400⟩

/-- Positional notation from `0.00001` on and below `10 ^ 16`. -/
def FloatStyle.compact : FloatStyle := ⟨-5, 15⟩

def Binary64.text (style : FloatStyle) : Binary64 → String
  | .nan => "NaN"
  | .infinite negative => if negative then "-inf" else "inf"
  | .finite negative mantissa exponent =>
    let d := shortestDecimal mantissa exponent
    let power := d.exponent + ((toString d.digits).length - 1 : Nat)
    (if negative then "-" else "")
      ++ if style.lowest ≤ power ∧ power ≤ style.highest then d.positional else d.scientific

end StreamDispatch.Number
