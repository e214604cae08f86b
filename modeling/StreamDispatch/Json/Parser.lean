import StreamDispatch.Json

set_option autoImplicit false

/-! # Reading JSON

A recursive descent reader. Each reader takes what it recognises from the front of the characters
and returns the rest, and none when the characters do not start with what it reads. A value is read
within an allowance for nested and repeated calls that no text can use up, since every call takes
a character. -/

namespace StreamDispatch.Json

/-- A reader: what stands at the front, and the characters after it. -/
abbrev Reader (α : Type) := List Char → Option (α × List Char)

/-- The characters after the white space at the front. -/
def skipSpace (cs : List Char) : List Char :=
  cs.dropWhile fun c => c == ' ' || c == '\n' || c == '\t' || c == '\r'

def hexValue? (c : Char) : Option Nat :=
  if '0' ≤ c ∧ c ≤ '9' then some (c.toNat - '0'.toNat)
  else if 'a' ≤ c ∧ c ≤ 'f' then some (c.toNat - 'a'.toNat + 10)
  else if 'A' ≤ c ∧ c ≤ 'F' then some (c.toNat - 'A'.toNat + 10)
  else none

def hexQuad? (a b c d : Char) : Option Nat := do
  return ((← hexValue? a) * 16 + (← hexValue? b)) * 256 + (← hexValue? c) * 16 + (← hexValue? d)

/-- The character of a code unit outside the surrogates. -/
def unitChar? (n : Nat) : Option Char :=
  if 0xD800 ≤ n ∧ n ≤ 0xDFFF then none else some (Char.ofNat n)

/-- The character of a pair of surrogates. -/
def pairChar? (high low : Nat) : Option Char :=
  if 0xD800 ≤ high ∧ high ≤ 0xDBFF ∧ 0xDC00 ≤ low ∧ low ≤ 0xDFFF then
    some (Char.ofNat (0x10000 + (high - 0xD800) * 0x400 + (low - 0xDC00)))
  else none

def letterEscape? : Char → Option Char
  | '"' => some '"'
  | '\\' => some '\\'
  | '/' => some '/'
  | 'b' => some '\x08'
  | 'f' => some '\x0c'
  | 'n' => some '\n'
  | 'r' => some '\r'
  | 't' => some '\t'
  | _ => none

def readChars : Reader (List Char)
  | [] => none
  | '"' :: rest => some ([], rest)
  | '\\' :: 'u' :: a :: b :: c :: d :: '\\' :: 'u' :: e :: f :: g :: h :: rest => do
    let first ← hexQuad? a b c d
    match unitChar? first with
    | some ch => do
      let (tail, rest) ← readChars ('\\' :: 'u' :: e :: f :: g :: h :: rest)
      return (ch :: tail, rest)
    | none => do
      let ch ← pairChar? first (← hexQuad? e f g h)
      let (tail, rest) ← readChars rest
      return (ch :: tail, rest)
  | '\\' :: 'u' :: a :: b :: c :: d :: rest => do
    let ch ← unitChar? (← hexQuad? a b c d)
    let (tail, rest) ← readChars rest
    return (ch :: tail, rest)
  | '\\' :: c :: rest => do
    let ch ← letterEscape? c
    let (tail, rest) ← readChars rest
    return (ch :: tail, rest)
  | c :: rest =>
    if c.toNat < 0x20 then none
    else do
      let (tail, rest) ← readChars rest
      return (c :: tail, rest)
termination_by cs => cs.length

/-- The decimal digits at the front. -/
def readDigits (cs : List Char) : List Char × List Char :=
  (cs.takeWhile Char.isDigit, cs.dropWhile Char.isDigit)

def digitsValue (cs : List Char) : Nat :=
  cs.foldl (fun n c => n * 10 + (c.toNat - '0'.toNat)) 0

/-- The fraction after the integer part of a number, without its point. -/
def readFraction : Reader (List Char)
  | '.' :: rest =>
    match readDigits rest with
    | ([], _) => none
    | (digits, rest) => some (digits, rest)
  | rest => some ([], rest)

/-- The power of ten at the end of a number, if there is one. -/
def readPower : Reader (Option Int)
  | c :: rest =>
    if c = 'e' ∨ c = 'E' then
      let (negative, rest) := match rest with
        | '-' :: rest => (true, rest)
        | '+' :: rest => (false, rest)
        | rest => (false, rest)
      match readDigits rest with
      | ([], _) => none
      | (digits, rest) =>
        let n : Int := digitsValue digits
        some (some (if negative then -n else n), rest)
    else some (none, c :: rest)
  | [] => some (none, [])

/-- The number with an integer part, a fraction and a power of ten. -/
def number? (negative : Bool) (whole fraction : List Char) (power : Option Int) : Option Json :=
  let integer : Int := if negative then -digitsValue whole else digitsValue whole
  if fraction.isEmpty ∧ power = none ∧ integerRange integer ∧ !(negative && integer == 0) then
    some (.integer integer)
  else
    let exponent := power.getD 0 - fraction.length
    match Number.Binary64.ofDecimal negative (digitsValue (whole ++ fraction)) exponent with
    | .finite n m e => some (.float (.finite n m e))
    | _ => none

def readNumber (cs : List Char) : Option (Json × List Char) :=
  let (negative, cs) := match cs with
    | '-' :: rest => (true, rest)
    | cs => (false, cs)
  match readDigits cs with
  | ([], _) => none
  | (whole, rest) =>
    if whole.head? = some '0' ∧ 1 < whole.length then none
    else do
      let (fraction, rest) ← readFraction rest
      let (power, rest) ← readPower rest
      return (← number? negative whole fraction power, rest)

mutual

def readValue : Nat → Reader Json
  | 0, _ => none
  | fuel + 1, cs =>
    match skipSpace cs with
    | 'n' :: 'u' :: 'l' :: 'l' :: rest => some (.null, rest)
    | 't' :: 'r' :: 'u' :: 'e' :: rest => some (.bool true, rest)
    | 'f' :: 'a' :: 'l' :: 's' :: 'e' :: rest => some (.bool false, rest)
    | '"' :: rest => (readChars rest).map fun (s, rest) => (.string (String.ofList s), rest)
    | '[' :: rest =>
      match skipSpace rest with
      | ']' :: rest => some (.array [], rest)
      | rest => (readItems fuel rest).map fun (items, rest) => (.array items, rest)
    | '\x7b' :: rest =>
      match skipSpace rest with
      | '\x7d' :: rest => some (ofMembers [], rest)
      | rest => (readMembers fuel rest).map fun (members, rest) => (ofMembers members, rest)
    | cs => readNumber cs

def readItems : Nat → Reader (List Json)
  | 0, _ => none
  | fuel + 1, cs => do
    let (v, rest) ← readValue fuel cs
    match skipSpace rest with
    | ',' :: rest => do
      let (items, rest) ← readItems fuel rest
      return (v :: items, rest)
    | ']' :: rest => some ([v], rest)
    | _ => none

def readMembers : Nat → Reader (List (String × Json))
  | 0, _ => none
  | fuel + 1, cs =>
    match skipSpace cs with
    | '"' :: rest => do
      let (name, rest) ← readChars rest
      match skipSpace rest with
      | ':' :: rest => do
        let (v, rest) ← readValue fuel rest
        match skipSpace rest with
        | ',' :: rest => do
          let (members, rest) ← readMembers fuel rest
          return ((String.ofList name, v) :: members, rest)
        | '\x7d' :: rest => some ([(String.ofList name, v)], rest)
        | _ => none
      | _ => none
    | _ => none

end

def parse? (text : String) : Option Json :=
  let cs := text.toList
  match readValue (2 * cs.length + 2) cs with
  | some (v, rest) => if (skipSpace rest).isEmpty then some v else none
  | none => none

end StreamDispatch.Json
