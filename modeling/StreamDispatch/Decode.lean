import StreamDispatch.Number.Shortest
import StreamDispatch.Text.Quoted

set_option autoImplicit false

/-! # Decoding documents into records

A decoder looks at the nodes of a document through their shape, so that one decoder serves every
document format. A record is decoded from a mapping of its field names: the entries are taken in the
order of the document, and the first that cannot be decoded decides the error; entries with other
names count for nothing. Only then are fields without an entry filled in or found missing, in the
order in which they are declared. A format may also admit a sequence of the fields in that order. -/

namespace StreamDispatch.Decode

open Number (Binary64 FloatStyle)

/-! ## Documents -/

/-- A node of a document, one level deep. -/
inductive Shape (σ : Type)
  | null
  | bool (b : Bool)
  | integer (n : Int)
  | float (x : Binary64)
  | text (s : String)
  | sequence (items : List σ)
  | mapping (entries : List (σ × σ))

/-- How a format words what was found. -/
structure Wording where
  /-- The name of the null value. -/
  null : String
  floatStyle : FloatStyle

/-- A document format. -/
class Document (σ : Type) where
  view : σ → Shape σ
  wording : Wording
  /-- Whether the null value stands for a record without entries. -/
  nullIsRecord : Bool
  /-- Whether a sequence of fields stands for a record. -/
  sequenceIsRecord : Bool

/-! ## Errors -/

/-- What stands where something else was expected. -/
inductive Found
  | null
  | bool (b : Bool)
  | integer (n : Int)
  | float (x : Binary64)
  | text (s : String)
  | sequence
  | mapping
  deriving DecidableEq, Repr

/-- Names what was found. -/
def Found.name (w : Wording) : Found → String
  | .null => w.null
  | .bool b => s!"boolean `{b}`"
  | .integer n => s!"integer `{n}`"
  | .float x => s!"floating point `{x.text w.floatStyle}`"
  | .text s => "string " ++ Text.quoted s
  | .sequence => "sequence"
  | .mapping => "map"

/-- What a node of a shape is, for an error. -/
def Shape.found {σ : Type} : Shape σ → Found
  | .null => .null
  | .bool b => .bool b
  | .integer n => .integer n
  | .float x => .float x
  | .text s => .text s
  | .sequence _ => .sequence
  | .mapping _ => .mapping

/-- Why a document does not stand for a value of a type. -/
inductive Error
  | invalidType (found : Found) (expected : String)
  | invalidValue (found : Found) (expected : String)
  | invalidLength (length : Nat) (expected : String)
  | missingField (name : String)
  | duplicateField (name : String)
  | unknownVariant (name : String) (known : List String)
  deriving DecidableEq, Repr

def Error.message (w : Wording) : Error → String
  | .invalidType found expected => s!"invalid type: {found.name w}, expected {expected}"
  | .invalidValue found expected => s!"invalid value: {found.name w}, expected {expected}"
  | .invalidLength length expected => s!"invalid length {length}, expected {expected}"
  | .missingField name => s!"missing field `{name}`"
  | .duplicateField name => s!"duplicate field `{name}`"
  | .unknownVariant name known =>
    s!"unknown variant `{name}`, expected one of "
      ++ String.intercalate ", " (known.map fun k => s!"`{k}`")

variable {σ : Type} [Document σ]

open Document (view)

/-- A decoder of nodes. -/
abbrev Reader (σ : Type) (β : Type) := σ → Except Error β

def wrongType {β : Type} (v : σ) (expected : String) : Except Error β :=
  .error (.invalidType (view v).found expected)

/-! ## Scalars and sequences -/

def bool : Reader σ Bool := fun v =>
  match view v with
  | .bool b => .ok b
  | _ => wrongType v "a boolean"

/-- A text; the expectation names what the text stands for. -/
def text (expected : String) : Reader σ String := fun v =>
  match view v with
  | .text s => .ok s
  | _ => wrongType v expected

def integer (low high : Int) (expected : String) : Reader σ Int := fun v =>
  match view v with
  | .integer n =>
    if low ≤ n ∧ n ≤ high then .ok n else .error (.invalidValue (.integer n) expected)
  | _ => wrongType v expected

def uint8 : Reader σ UInt8 := fun v =>
  (integer 0 255 "u8" v).map fun n => UInt8.ofNat n.toNat

def int32 : Reader σ Int32 := fun v =>
  (integer (-Nat.pow 2 31) (Nat.pow 2 31 - 1) "i32" v).map Int32.ofInt

def int64 : Reader σ Int64 := fun v =>
  (integer (-Nat.pow 2 63) (Nat.pow 2 63 - 1) "i64" v).map Int64.ofInt

/-- An unsigned word of 64 bits; the expectation names what it is used as. -/
def uint64 (expected : String) : Reader σ UInt64 := fun v =>
  (integer 0 (Nat.pow 2 64 - 1) expected v).map fun n => UInt64.ofNat n.toNat

def sequence {β : Type} (item : Reader σ β) : Reader σ (List β) := fun v =>
  match view v with
  | .sequence items => items.mapM item
  | _ => wrongType v "a sequence"

/-- A mapping from texts to texts, entry by entry. -/
def textEntries : Reader σ (List (String × String)) := fun v =>
  match view v with
  | .mapping entries => entries.mapM fun (k, v) =>
    return (← text "a string" k, ← text "a string" v)
  | _ => wrongType v "a map"

/-- One of several names. It may also stand as the only key of a mapping, with the null value. -/
def variant {β : Type} (known : List (String × β)) : Reader σ β := fun v =>
  let named (name : String) : Except Error β :=
    match known.find? (·.1 == name) with
    | some (_, b) => .ok b
    | none => .error (.unknownVariant name (known.map Prod.fst))
  match view v with
  | .text s => named s
  | .mapping [(k, v)] => do
    let b ← named (← text "variant identifier" k)
    match view v with
    | .null => return b
    | _ => wrongType v "unit"
  | .mapping _ => .error (.invalidValue .mapping "map with a single key")
  | _ => wrongType v "string or map"

/-! ## Records -/

/-- A decoder of records: what the entry of each declared field must decode as, and how the record
is put together from the entries. A missing field without a default is an error that depends on
where the entries come from. -/
structure Record (σ : Type) (β : Type) where
  fields : List (String × (σ → Except Error Unit))
  assemble : (String → Error) → (String → Option σ) → Except Error β

namespace Record

def required {β : Type} (name : String) (read : Reader σ β) : Record σ β where
  fields := [(name, fun v => (read v).map fun _ => ())]
  assemble missing entry :=
    match entry name with
    | some v => read v
    | none => .error (missing name)

def optional {β : Type} (name : String) (default : β) (read : Reader σ β) : Record σ β where
  fields := [(name, fun v => (read v).map fun _ => ())]
  assemble _ entry :=
    match entry name with
    | some v => read v
    | none => .ok default

instance : Applicative (Record σ) where
  pure b := ⟨[], fun _ _ => .ok b⟩
  seq f x :=
    { fields := f.fields ++ (x ()).fields
      assemble := fun missing entry => do
        let g ← f.assemble missing entry
        let a ← (x ()).assemble missing entry
        return g a }

/-- The names of the declared fields, in order. -/
def names {β : Type} (r : Record σ β) : List String := r.fields.map Prod.fst

/-- Decodes the entries of a mapping in order, for the sake of the first error. The list holds the
names that have been met. -/
def checkEntries {β : Type} (r : Record σ β) (seen : List String) :
    List (σ × σ) → Except Error Unit
  | [] => .ok ()
  | (k, v) :: rest =>
    match view k with
    | .text name =>
      match r.fields.find? (·.1 == name) with
      | none => r.checkEntries seen rest
      | some (_, check) =>
        if seen.contains name then .error (.duplicateField name)
        else do
          check v
          r.checkEntries (name :: seen) rest
    | _ => wrongType k "field identifier"

def findEntry (entries : List (σ × σ)) (name : String) : Option σ :=
  match entries with
  | [] => none
  | (k, v) :: rest =>
    match view k with
    | .text s => if s = name then some v else findEntry rest name
    | _ => findEntry rest name

def ofEntries {β : Type} (r : Record σ β) (entries : List (σ × σ)) : Except Error β := do
  r.checkEntries [] entries
  r.assemble .missingField (findEntry entries)

/-- Decodes the fields at the front of a sequence, for the sake of the first error. -/
def checkItems : List (String × (σ → Except Error Unit)) → List σ → Except Error Unit
  | (_, check) :: fields, v :: rest => do check v; checkItems fields rest
  | _, _ => .ok ()

def findItem : List String → List σ → String → Option σ
  | n :: names, v :: rest, name => if n = name then some v else findItem names rest name
  | _, _, _ => none

def ofItems {β : Type} (r : Record σ β) (typeName : String) (items : List σ) :
    Except Error β := do
  let count := r.fields.length
  let plural := if count = 1 then "" else "s"
  let expected := s!"{typeName} with {count} element{plural}"
  checkItems r.fields items
  let b ← r.assemble (fun name => .invalidLength (r.names.idxOf name) expected)
    (findItem r.names items)
  if count < items.length then
    .error (.invalidLength items.length "fewer elements in array")
  else return b

/-- The decoder of a record whose type has a name. -/
def read {β : Type} (r : Record σ β) (typeName : String) : Reader σ β := fun v =>
  match view v with
  | .mapping entries => r.ofEntries entries
  | .null => if Document.nullIsRecord σ then r.ofEntries [] else wrongType v typeName
  | .sequence items =>
    if Document.sequenceIsRecord σ then r.ofItems typeName items else wrongType v typeName
  | _ => wrongType v typeName

end Record

end StreamDispatch.Decode
