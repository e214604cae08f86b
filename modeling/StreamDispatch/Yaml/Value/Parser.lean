import StreamDispatch.Yaml.Node
import StreamDispatch.Yaml.Scalar
import StreamDispatch.Yaml.Token.Lexer
import StreamDispatch.Yaml.Value

set_option autoImplicit false

/-! # From texts to values

Aliases are followed and scalars get their meaning. A name that is given to a node has as its number
how many names have been given before, and an alias stands for the node with the number that its
name has where the alias occurs. A name that is given again gets a new number, which a later name
may get as well; of the nodes with one number the last counts. Following aliases is limited in
number and collections are limited in depth, so that the value of every text is found in bounded
time. -/

namespace StreamDispatch.Yaml

/-! ## Numbered nodes -/

/-- A node in which every alias is a number, and every node with a name has one. -/
inductive Link
  | alias (number : Nat)
  | scalar (number : Option Nat) (tag : Option String) (plain : Bool) (text : String)
  | sequence (number : Option Nat) (tag : Option String) (items : List Link)
  | mapping (number : Option Nat) (tag : Option String) (entries : List (Link × Link))
  deriving Repr, Inhabited

abbrev Names := List (String × Nat)

/-- Gives a name, if there is one, its number. -/
def Names.declare (names : Names) : Option String → Option Nat × Names
  | none => (none, names)
  | some name => (some names.length, (name, names.length) :: names.filter (·.1 ≠ name))

namespace Link

mutual

/-- Numbers a node and what is in it, in the order of the document. -/
def ofNode (names : Names) : Node → Except Error (Link × Names)
  | .alias name =>
    match names.find? (·.1 == name) with
    | some (_, number) => .ok (.alias number, names)
    | none => .error .unknownAlias
  | .scalar properties plain text =>
    let (number, names) := names.declare properties.anchor
    .ok (.scalar number properties.tag plain text, names)
  | .sequence properties items => do
    let (number, names) := names.declare properties.anchor
    let (items, names) ← ofItems names items
    return (.sequence number properties.tag items, names)
  | .mapping properties entries => do
    let (number, names) := names.declare properties.anchor
    let (entries, names) ← ofEntries names entries
    return (.mapping number properties.tag entries, names)

def ofItems (names : Names) : List Node → Except Error (List Link × Names)
  | [] => .ok ([], names)
  | n :: rest => do
    let (l, names) ← ofNode names n
    let (rest, names) ← ofItems names rest
    return (l :: rest, names)

def ofEntries (names : Names) : List (Node × Node) → Except Error (List (Link × Link) × Names)
  | [] => .ok ([], names)
  | (k, v) :: rest => do
    let (k, names) ← ofNode names k
    let (v, names) ← ofNode names v
    let (rest, names) ← ofEntries names rest
    return ((k, v) :: rest, names)

end

def target (number : Option Nat) (l : Link) : List (Nat × Link) :=
  match number with
  | some n => [(n, l)]
  | none => []

mutual

/-- The nodes with a number, in the order in which they begin. -/
def targets : Link → List (Nat × Link)
  | .alias _ => []
  | .scalar number tag plain text => target number (.scalar number tag plain text)
  | .sequence number tag items => target number (.sequence number tag items) ++ itemTargets items
  | .mapping number tag entries =>
    target number (.mapping number tag entries) ++ entryTargets entries

def itemTargets : List Link → List (Nat × Link)
  | [] => []
  | l :: rest => targets l ++ itemTargets rest

def entryTargets : List (Link × Link) → List (Nat × Link)
  | [] => []
  | (k, v) :: rest => targets k ++ targets v ++ entryTargets rest

end

mutual

/-- How many events tell a node: one for a scalar or an alias, and two for a collection besides
those of its content. -/
def events : Link → Nat
  | .alias _ | .scalar .. => 1
  | .sequence _ _ items => 2 + itemEvents items
  | .mapping _ _ entries => 2 + entryEvents entries

def itemEvents : List Link → Nat
  | [] => 0
  | l :: rest => events l + itemEvents rest

def entryEvents : List (Link × Link) → Nat
  | [] => 0
  | (k, v) :: rest => events k + events v + entryEvents rest

end

end Link

/-! ## Values -/

/-- A step towards a value. The state is the number of aliases that may still be followed. -/
abbrev Build := StateT Nat (Except Error)

namespace Value

/-- How deep collections may lie within one another. -/
def maxDepth : Nat := 128

/-- How many aliases may be followed for each event of the document. -/
def aliasesPerEvent : Nat := 100

def ofMeaning : Meaning → Value
  | .null => .null
  | .bool b => .bool b
  | .integer n => .integer n
  | .float x => .float x
  | .text s => .text s

def withTag (tag : Option String) (v : Value) : Value :=
  match tag with
  | some t => if t.toList.head? = some '!' then .tagged t v else v
  | none => v

def coreTag : String := "tag:yaml.org,2002:"

def coreName? (tag : String) : Option String :=
  if coreTag.toList.isPrefixOf tag.toList then
    some (String.ofList (tag.toList.drop coreTag.length))
  else none

def ofScalar (tag : Option String) (plain : Bool) (written : String) : Except Error Value :=
  let meaning := if plain then plainMeaning written else .ok (.text written)
  match tag with
  | none => meaning.map ofMeaning
  | some t =>
    if t.toList.head? = some '!' then meaning.map fun m => .tagged t (ofMeaning m)
    else
      match coreName? t with
      | some name => (taggedMeaning name written).map ofMeaning
      | none => .ok (.text written)

def follow (targets : List (Nat × Link)) : Link → Build Link
  | .alias number => do
    match ← get with
    | 0 => throw .tooManyAliases
    | n + 1 => do
      set n
      match targets.reverse.find? (·.1 == number) with
      | some (_, l) => return l
      | none => throw .unknownAlias
  | l => return l

def ofLink (targets : List (Nat × Link)) : Nat → Link → Build Value
  | depth, l => do
    match ← follow targets l with
    | .alias _ => throw .unknownAlias
    | .scalar _ tag plain written =>
      match ofScalar tag plain written with
      | .ok v => return v
      | .error e => throw e
    | .sequence _ tag items =>
      match depth with
      | 0 => throw .tooDeep
      | depth + 1 => return withTag tag (.sequence (← items.mapM (ofLink targets depth)))
    | .mapping _ tag entries =>
      match depth with
      | 0 => throw .tooDeep
      | depth + 1 =>
        let entries ← entries.foldlM (fun (done : List (Value × Value)) (k, v) => do
          let k ← ofLink targets depth k
          if (lookup k done).isSome then throw .duplicateKey
          else return done ++ [(k, ← ofLink targets depth v)]) []
        return withTag tag (.mapping entries)

def ofNode (n : Node) : Except Error Value := do
  let (l, _) ← Link.ofNode [] n
  let (v, _) ← (ofLink l.targets maxDepth l).run (aliasesPerEvent * l.events)
  return v

/-- The value of the document that a text holds. A text without a document holds the null value. -/
def parse (s : String) : Except Error Value := do
  match ← Node.ofTokens (← Token.ofText s) with
  | some n => ofNode n
  | none => return .null

end Value

end StreamDispatch.Yaml
