import StreamDispatch.Decode

set_option autoImplicit false

/-! # YAML values

What a YAML document stands for. The entries of a mapping keep their order, and no two of them have
the same key. A tag that the schema does not know is kept as a wrapper of the value it stands on;
decoding looks through it. -/

namespace StreamDispatch.Yaml

open Number (Binary64)

/-- A YAML value. -/
inductive Value
  | null
  | bool (b : Bool)
  | integer (n : Int)
  | float (x : Binary64)
  | text (s : String)
  | sequence (items : List Value)
  | mapping (entries : List (Value × Value))
  | tagged (tag : String) (content : Value)
  deriving Repr, Inhabited

namespace Value

/-! ## Equality of values -/

/-- A tag without the exclamation mark in front. A lone mark is a tag of its own. -/
def bareTag (tag : String) : String :=
  match tag.toList with
  | '!' :: c :: rest => String.ofList (c :: rest)
  | _ => tag

mutual

/-- Whether two values are the same. The order of entries does not matter. -/
def same : Value → Value → Bool
  | .null, .null => true
  | .bool a, .bool b => a == b
  | .integer m, .integer n => m == n
  | .float x, .float y => x.sameNumber y
  | .text s, .text t => s == t
  | .sequence xs, .sequence ys => sameItems xs ys
  | .mapping a, .mapping b => a.length == b.length && sameEntries a b
  | .tagged t a, .tagged u b => bareTag t == bareTag u && same a b
  | _, _ => false

def sameItems : List Value → List Value → Bool
  | [], [] => true
  | x :: xs, y :: ys => same x y && sameItems xs ys
  | _, _ => false

def sameEntries : List (Value × Value) → List (Value × Value) → Bool
  | [], _ => true
  | (k, v) :: rest, b =>
    b.any (fun e => same k e.1 && same v e.2) && sameEntries rest b

end

/-! ## Entries -/

def lookup (key : Value) : List (Value × Value) → Option Value
  | [] => none
  | (k, v) :: rest => if key.same k then some v else lookup key rest

def untagged : Value → Value
  | .tagged _ v => v.untagged
  | v => v

def get? (v : Value) (key : String) : Option Value :=
  match v.untagged with
  | .mapping entries => lookup (.text key) entries
  | _ => none

/-! ## Values as documents -/

open Decode (Shape Document)

/-- The shape of a value, seen through its tags. -/
def shape : Value → Shape Value
  | .null => .null
  | .bool b => .bool b
  | .integer n => .integer n
  | .float x => .float x
  | .text s => .text s
  | .sequence items => .sequence items
  | .mapping entries => .mapping entries
  | .tagged _ v => v.shape

instance : Document Value where
  view := shape
  wording := { null := "unit value", floatStyle := .alwaysPositional }
  nullIsRecord := true
  sequenceIsRecord := false

def errorMessage (e : Decode.Error) : String := e.message (Document.wording Value)

end Value

end StreamDispatch.Yaml
