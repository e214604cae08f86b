import StreamDispatch.Decode
import StreamDispatch.Json

set_option autoImplicit false

/-! # JSON as a document format

A JSON value is decoded as it is. A record may also be an array of its fields, but not the null
value. -/

namespace StreamDispatch.Json

open Decode (Shape Document)

def shape : Json → Shape Json
  | .null => .null
  | .bool b => .bool b
  | .integer n => .integer n
  | .float x => .float x
  | .string s => .text s
  | .array items => .sequence items
  | .object members => .mapping (members.map fun (k, v) => (.string k, v))

instance : Document Json where
  view := shape
  wording := { null := "null", floatStyle := .compact }
  nullIsRecord := false
  sequenceIsRecord := true

def errorMessage (e : Decode.Error) : String := e.message (Document.wording Json)

end StreamDispatch.Json
