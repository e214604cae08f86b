import StreamDispatch.Number.Binary64
import StreamDispatch.Yaml.Error

set_option autoImplicit false

/-! # What a plain scalar means

A plain scalar may be written like a null value, a truth value, an integer or a floating point
number, and is a text otherwise. Integers may be decimal, hexadecimal, octal or binary, with a sign.
Decimal digits that begin with a zero are no number. An integer must fit into 64 bits; the ones that
need no more than 128 bits are an error, and beyond that decimal digits are read as a floating point
number. -/

namespace StreamDispatch.Yaml

open Number (Binary64)

/-- What a scalar stands for. -/
inductive Meaning
  | null
  | bool (b : Bool)
  | integer (n : Int)
  | float (x : Binary64)
  | text (s : String)
  deriving DecidableEq, Repr, Inhabited

def isNullText (s : String) : Bool := s == "null" || s == "Null" || s == "NULL" || s == "~"

def boolText? (s : String) : Option Bool :=
  if s == "true" || s == "True" || s == "TRUE" then some true
  else if s == "false" || s == "False" || s == "FALSE" then some false
  else none

/-! ## Integers -/

def baseDigit? (base : Nat) (c : Char) : Option Nat :=
  let n :=
    if '0' ≤ c ∧ c ≤ '9' then c.toNat - '0'.toNat
    else if 'a' ≤ c ∧ c ≤ 'z' then c.toNat - 'a'.toNat + 10
    else if 'A' ≤ c ∧ c ≤ 'Z' then c.toNat - 'A'.toNat + 10
    else base
  if n < base then some n else none

def baseDigits? (base : Nat) (cs : List Char) : Option Nat :=
  if cs.isEmpty then none
  else cs.foldlM (fun n c => (baseDigit? base c).map (n * base + ·)) 0

/-- Digits that begin with a zero, after an optional sign. -/
def isZeroPadded (cs : List Char) : Bool :=
  let digits := match cs with
    | '-' :: rest | '+' :: rest => rest
    | cs => cs
  1 < digits.length && digits.head? == some '0' && digits.all Char.isDigit

/-- The magnitude of an integer without its sign: a base and its digits. -/
def magnitude? : List Char → Option Nat
  | '0' :: 'x' :: rest => baseDigits? 16 rest
  | '0' :: 'o' :: rest => baseDigits? 8 rest
  | '0' :: 'b' :: rest => baseDigits? 2 rest
  | cs => if isZeroPadded cs then none else baseDigits? 10 cs

def integer? : List Char → Option Int
  | '-' :: rest => (magnitude? rest).map fun n => -Int.ofNat n
  | '+' :: rest => (magnitude? rest).map Int.ofNat
  | cs => (magnitude? cs).map Int.ofNat

/-- Whether an integer fits into words of some bits, signed if it is negative and unsigned if
not. -/
def fitsWord (bits : Nat) (n : Int) : Bool :=
  decide (-(Nat.pow 2 (bits - 1) : Int) ≤ n) && decide (n < (Nat.pow 2 bits : Int))

/-! ## Floating point numbers -/

/-- The ways to write what is no finite number. -/
def specialFloat? (s : String) : Option Binary64 :=
  if [".inf", ".Inf", ".INF", "+.inf", "+.Inf", "+.INF"].contains s then some (.infinite false)
  else if ["-.inf", "-.Inf", "-.INF"].contains s then some (.infinite true)
  else if [".nan", ".NaN", ".NAN"].contains s then some .nan
  else none

/-- The power of ten after a mantissa; there need not be one. -/
def power? : List Char → Option Int
  | [] => some 0
  | c :: rest =>
    if c = 'e' ∨ c = 'E' then
      match rest with
      | '-' :: digits => (baseDigits? 10 digits).map fun n => -Int.ofNat n
      | '+' :: digits => (baseDigits? 10 digits).map Int.ofNat
      | digits => (baseDigits? 10 digits).map Int.ofNat
    else none

/-- The number that characters without a sign write: digits with a point among them, and a power of
ten. -/
def unsignedFloat? (negative : Bool) (cs : List Char) : Option Binary64 := do
  let whole := cs.takeWhile Char.isDigit
  let rest := cs.dropWhile Char.isDigit
  let (fraction, rest) := match rest with
    | '.' :: rest => (rest.takeWhile Char.isDigit, rest.dropWhile Char.isDigit)
    | rest => ([], rest)
  let digits ← baseDigits? 10 (whole ++ fraction)
  return .ofDecimal negative digits ((← power? rest) - fraction.length)

def finiteFloat? (cs : List Char) : Option Binary64 :=
  (match cs with
    | '-' :: rest => unsignedFloat? true rest
    | '+' :: rest => unsignedFloat? false rest
    | cs => unsignedFloat? false cs).filter Binary64.isFinite

def float? (s : String) : Option Binary64 := (specialFloat? s).or (finiteFloat? s.toList)

/-! ## Meanings -/

def plainMeaning (s : String) : Except Error Meaning :=
  if s.isEmpty || isNullText s then .ok .null
  else
    match boolText? s with
    | some b => .ok (.bool b)
    | none =>
      match (integer? s.toList).filter (fitsWord 128) with
      | some n => if fitsWord 64 n then .ok (.integer n) else .error .integerOutOfRange
      | none =>
        if isZeroPadded s.toList then .ok (.text s)
        else
          match float? s with
          | some x => .ok (.float x)
          | none => .ok (.text s)

def taggedMeaning (name : String) (s : String) : Except Error Meaning :=
  if name = "bool" then
    match boolText? s with
    | some b => .ok (.bool b)
    | none => .error .tagMismatch
  else if name = "int" then
    match (integer? s.toList).filter (fitsWord 64) with
    | some n => .ok (.integer n)
    | none => .error .tagMismatch
  else if name = "float" then
    match float? s with
    | some x => .ok (.float x)
    | none => .error .tagMismatch
  else if name = "null" then
    if isNullText s then .ok .null else .error .tagMismatch
  else .ok (.text s)

end StreamDispatch.Yaml
