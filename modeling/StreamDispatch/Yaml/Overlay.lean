import StreamDispatch.Yaml.Value

set_option autoImplicit false

/-! # Laying one value over another

Where both values are mappings, their entries are combined: an entry that only one of them has is
kept, the base's entries first, and an entry of both is combined in turn. Anywhere else the upper
value replaces the lower one, whatever the two are. -/

namespace StreamDispatch.Yaml.Value

/-- Changes the value of a key among entries, or adds an entry for it at the end. -/
def alterEntry (key added : Value) (change : Value → Value) :
    List (Value × Value) → List (Value × Value)
  | [] => [(key, added)]
  | (k, v) :: rest =>
    if key.same k then (k, change v) :: rest else (k, v) :: alterEntry key added change rest

mutual

/-- A value with another laid over it. -/
def overlay (base : Value) : Value → Value
  | .mapping upper =>
    match base with
    | .mapping entries => .mapping (overlayEntries entries upper)
    | _ => .mapping upper
  | upper => upper

/-- Entries with others laid over them. -/
def overlayEntries (entries : List (Value × Value)) :
    List (Value × Value) → List (Value × Value)
  | [] => entries
  | (k, v) :: rest =>
    overlayEntries (alterEntry k v (fun old => overlay old v) entries) rest

end

/-- Takes the entry of a key out; the last entry moves into its place. -/
def removeEntry (key : Value) (entries : List (Value × Value)) : List (Value × Value) :=
  match entries.findIdx? (fun e => key.same e.1) with
  | none => entries
  | some i =>
    match entries.getLast? with
    | none => entries
    | some last => (entries.set i last).dropLast

/-- A mapping without the entry of a text. Any other value is left as it is. -/
def remove (key : String) : Value → Value
  | .mapping entries => .mapping (removeEntry (.text key) entries)
  | v => v

end StreamDispatch.Yaml.Value
