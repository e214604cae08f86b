set_option autoImplicit false

/-! # Reading a decimal integer within bounds

An optional sign and one or more ASCII digits. The digits are taken from the left, and the first
trouble met on the way decides the error: a character that is no digit, or a prefix whose value has
already left the bounds. -/

namespace StreamDispatch.Number

/-- Why a text is not an integer within the bounds. -/
inductive IntegerError
  | empty
  | invalidDigit
  | tooLarge
  | tooSmall
  deriving DecidableEq, Repr

def IntegerError.message : IntegerError → String
  | .empty => "cannot parse integer from empty string"
  | .invalidDigit => "invalid digit found in string"
  | .tooLarge => "number too large to fit in target type"
  | .tooSmall => "number too small to fit in target type"

def digitValue? (c : Char) : Option Nat :=
  if '0' ≤ c ∧ c ≤ '9' then some (c.toNat - '0'.toNat) else none

/-- Appends digits to a magnitude that may grow to `limit` and no further. -/
def readMagnitude (limit : Nat) (overflow : IntegerError) :
    Nat → List Char → Except IntegerError Nat
  | value, [] => .ok value
  | value, c :: rest =>
    match digitValue? c with
    | none => .error .invalidDigit
    | some d =>
      let next := value * 10 + d
      if next ≤ limit then readMagnitude limit overflow next rest else .error overflow

/-- The integers from `-below` to `above`, in decimal notation with an optional sign. -/
def readInteger (below above : Nat) : List Char → Except IntegerError Int
  | [] => .error .empty
  | ['+'] | ['-'] => .error .invalidDigit
  | '+' :: digits => (readMagnitude above .tooLarge 0 digits).map Int.ofNat
  | '-' :: digits => (readMagnitude below .tooSmall 0 digits).map fun n => -Int.ofNat n
  | digits => (readMagnitude above .tooLarge 0 digits).map Int.ofNat

end StreamDispatch.Number
