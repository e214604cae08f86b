import StreamDispatch.Number.Binary64
import StreamDispatch.Dictionary

set_option autoImplicit false

/-! # JSON values

A JSON document as data. A number is an integer as long as it is written as one and fits into 64
bits, signed or unsigned; any other number is a double. The members of an object stand in ascending
order of their names, each name once. -/

namespace StreamDispatch

/-- A JSON value. -/
inductive Json
  | null
  | bool (b : Bool)
  | integer (n : Int)
  | float (x : Number.Binary64)
  | string (s : String)
  | array (items : List Json)
  | object (members : List (String × Json))
  deriving Inhabited, Repr

namespace Json

def integerRange (n : Int) : Bool :=
  decide (-(Nat.pow 2 63 : Int) ≤ n) && decide (n < (Nat.pow 2 64 : Int))

/-- The object with the given members, of which the last with a name counts. -/
def ofMembers (members : List (String × Json)) : Json := .object (Dictionary.ofList members).entries

def ofTexts (d : Dictionary String) : Json := .object (d.mapValues .string).entries

def get? (v : Json) (name : String) : Option Json :=
  match v with
  | .object members => Dictionary.find name members
  | _ => none

end Json

end StreamDispatch
