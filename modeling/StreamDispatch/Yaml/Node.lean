import StreamDispatch.Yaml.Error
import StreamDispatch.Yaml.Token

set_option autoImplicit false

/-! # Nodes of a document

The tree that the tokens of a document spell, before aliases are followed and scalars are given a
meaning. A node that is missing where one may stand is an empty plain scalar. -/

namespace StreamDispatch.Yaml

/-- What may stand before the content of a node. -/
structure Properties where
  anchor : Option String
  tag : Option String
  deriving DecidableEq, Repr, Inhabited

def Properties.none : Properties := ⟨.none, .none⟩

/-- A node of a document. -/
inductive Node
  | alias (name : String)
  | scalar (properties : Properties) (plain : Bool) (text : String)
  | sequence (properties : Properties) (items : List Node)
  | mapping (properties : Properties) (entries : List (Node × Node))
  deriving Repr, Inhabited

namespace Node

def missing (properties : Properties) : Node := .scalar properties true ""

abbrev TagHandles := List (String × String)

def defaultHandles : TagHandles := [("!", "!"), ("!!", "tag:yaml.org,2002:")]

def resolveTag (handles : TagHandles) (handle suffix : String) : Except Error String :=
  if handle.isEmpty then .ok suffix
  else
    match handles.find? (·.1 == handle) with
    | some (_, shorthand) => .ok (shorthand ++ suffix)
    | none => .error .undefinedTagHandle

/-- Takes the anchor and the tag of a node, in either order. -/
def takeProperties (handles : TagHandles) :
    List Token → Except Error (Properties × List Token)
  | .anchor a :: .tag h s :: rest => do return (⟨some a, some (← resolveTag handles h s)⟩, rest)
  | .tag h s :: .anchor a :: rest => do return (⟨some a, some (← resolveTag handles h s)⟩, rest)
  | .anchor a :: rest => .ok (⟨some a, none⟩, rest)
  | .tag h s :: rest => do return (⟨none, some (← resolveTag handles h s)⟩, rest)
  | rest => .ok (.none, rest)

/-- A scalar node. The tag of a single exclamation mark says no more than that there is no tag. -/
def ofScalar (properties : Properties) (plain : Bool) (text : String) : Node :=
  .scalar { properties with tag := properties.tag.filter (· ≠ "!") } plain text

/-- Whether a key, a value or a block end stands at the front, before which no node stands. -/
def endsBlockEntry : List Token → Bool
  | .key :: _ | .value :: _ | .blockEnd :: _ => true
  | _ => false

/-- Whether a comma or a closing bracket stands at the front. -/
def endsFlowEntry (close : Token) : List Token → Bool
  | t :: _ => t == .flowEntry || t == close
  | [] => false

/-- A reader of nodes: what the tokens at the front spell, and the tokens after it. -/
abbrev Parser (α : Type) := List Token → Except Error (α × List Token)

mutual

/-- A node. In a block it may be a block collection; as a key or value of a block mapping it may
also be a sequence whose entries are indented no further than the key. -/
def parseNode (handles : TagHandles) (inBlock unindented : Bool) : Nat → Parser Node
  | 0, _ => .error .badStructure
  | _ + 1, .alias name :: rest => .ok (.alias name, rest)
  | fuel + 1, tokens => do
    let (properties, tokens) ← takeProperties handles tokens
    match tokens with
    | .scalar plain text :: rest => return (ofScalar properties plain text, rest)
    | .flowSequenceStart :: rest =>
      let (items, rest) ← parseFlowItems handles true fuel rest
      return (.sequence properties items, rest)
    | .flowMappingStart :: rest =>
      let (entries, rest) ← parseFlowEntries handles true fuel rest
      return (.mapping properties entries, rest)
    | .blockSequenceStart :: rest =>
      if inBlock then
        let (items, rest) ← parseBlockItems handles fuel rest
        return (.sequence properties items, rest)
      else if properties = .none then .error .badStructure
      else return (missing properties, tokens)
    | .blockMappingStart :: rest =>
      if inBlock then
        let (entries, rest) ← parseBlockEntries handles fuel rest
        return (.mapping properties entries, rest)
      else if properties = .none then .error .badStructure
      else return (missing properties, tokens)
    | .blockEntry :: _ =>
      if unindented then
        let (items, rest) ← parseUnindentedItems handles fuel tokens
        return (.sequence properties items, rest)
      else if properties = .none then .error .badStructure
      else return (missing properties, tokens)
    | _ =>
      if properties = .none then .error .badStructure
      else return (missing properties, tokens)

/-- A node of a block mapping, or a missing one. -/
def parseBlockNode (handles : TagHandles) : Nat → Parser Node
  | 0, _ => .error .badStructure
  | fuel + 1, tokens =>
    if endsBlockEntry tokens then .ok (missing .none, tokens)
    else parseNode handles true true fuel tokens

/-- The items of a block sequence, up to its end. -/
def parseBlockItems (handles : TagHandles) : Nat → Parser (List Node)
  | 0, _ => .error .badStructure
  | fuel + 1, .blockEntry :: rest => do
    let (item, rest) ← (match rest with
      | .blockEntry :: _ | .blockEnd :: _ => .ok (missing .none, rest)
      | _ => parseNode handles true false fuel rest)
    let (items, rest) ← parseBlockItems handles fuel rest
    return (item :: items, rest)
  | _ + 1, .blockEnd :: rest => .ok ([], rest)
  | _ + 1, _ => .error .badStructure

/-- The items of a sequence that is indented no further than its key. -/
def parseUnindentedItems (handles : TagHandles) : Nat → Parser (List Node)
  | 0, _ => .error .badStructure
  | fuel + 1, .blockEntry :: rest => do
    let (item, rest) ← (match rest with
      | .blockEntry :: _ | .key :: _ | .value :: _ | .blockEnd :: _ => .ok (missing .none, rest)
      | _ => parseNode handles true false fuel rest)
    let (items, rest) ← parseUnindentedItems handles fuel rest
    return (item :: items, rest)
  | _ + 1, rest => .ok ([], rest)

/-- The entries of a block mapping, up to its end. -/
def parseBlockEntries (handles : TagHandles) : Nat → Parser (List (Node × Node))
  | 0, _ => .error .badStructure
  | fuel + 1, .key :: rest => do
    let (k, rest) ← parseBlockNode handles fuel rest
    let (v, rest) ← parseBlockValue handles fuel rest
    let (entries, rest) ← parseBlockEntries handles fuel rest
    return ((k, v) :: entries, rest)
  | _ + 1, .blockEnd :: rest => .ok ([], rest)
  | _ + 1, _ => .error .badStructure

def parseBlockValue (handles : TagHandles) : Nat → Parser Node
  | 0, _ => .error .badStructure
  | fuel + 1, .value :: rest => parseBlockNode handles fuel rest
  | _ + 1, rest => .ok (missing .none, rest)

/-- The items of a sequence in brackets, up to the closing one. An item may be a single entry of a
mapping. -/
def parseFlowItems (handles : TagHandles) (first : Bool) : Nat → Parser (List Node)
  | 0, _ => .error .badStructure
  | fuel + 1, tokens => do
    let tokens ← (match first, tokens with
      | true, tokens => .ok tokens
      | false, .flowSequenceEnd :: _ => .ok tokens
      | false, .flowEntry :: rest => .ok rest
      | false, _ => .error .badStructure)
    match tokens with
    | .flowSequenceEnd :: rest => return ([], rest)
    | .key :: rest =>
      let (entry, rest) ← parseFlowPair handles fuel rest
      let (items, rest) ← parseFlowItems handles false fuel rest
      return (.mapping .none [entry] :: items, rest)
    | tokens =>
      let (item, rest) ← parseNode handles false false fuel tokens
      let (items, rest) ← parseFlowItems handles false fuel rest
      return (item :: items, rest)

/-- An entry of a mapping in a sequence, after the mark of its key. Where the key is missing, the
token in its place is passed over. -/
def parseFlowPair (handles : TagHandles) : Nat → Parser (Node × Node)
  | 0, _ => .error .badStructure
  | fuel + 1, tokens => do
    let (k, rest) ← (match tokens with
      | .value :: rest | .flowEntry :: rest | .flowSequenceEnd :: rest =>
        .ok (missing .none, rest)
      | _ => parseNode handles false false fuel tokens)
    let (v, rest) ← parseFlowValue handles .flowSequenceEnd fuel rest
    return ((k, v), rest)

/-- The value of an entry in brackets of which the closing one is given. -/
def parseFlowValue (handles : TagHandles) (close : Token) : Nat → Parser Node
  | 0, _ => .error .badStructure
  | fuel + 1, .value :: rest =>
    if endsFlowEntry close rest then .ok (missing .none, rest)
    else parseNode handles false false fuel rest
  | _ + 1, rest => .ok (missing .none, rest)

/-- The entries of a mapping in braces, up to the closing one. -/
def parseFlowEntries (handles : TagHandles) (first : Bool) : Nat → Parser (List (Node × Node))
  | 0, _ => .error .badStructure
  | fuel + 1, tokens => do
    let tokens ← (match first, tokens with
      | true, tokens => .ok tokens
      | false, .flowMappingEnd :: _ => .ok tokens
      | false, .flowEntry :: rest => .ok rest
      | false, _ => .error .badStructure)
    match tokens with
    | .flowMappingEnd :: rest => return ([], rest)
    | .key :: rest =>
      let (entry, rest) ← parseFlowKeyed handles fuel rest
      let (entries, rest) ← parseFlowEntries handles false fuel rest
      return (entry :: entries, rest)
    | tokens =>
      let (k, rest) ← parseNode handles false false fuel tokens
      let (entries, rest) ← parseFlowEntries handles false fuel rest
      return ((k, missing .none) :: entries, rest)

/-- An entry of a mapping in braces, after the mark of its key. -/
def parseFlowKeyed (handles : TagHandles) : Nat → Parser (Node × Node)
  | 0, _ => .error .badStructure
  | fuel + 1, tokens => do
    let (k, rest) ← (match tokens with
      | .value :: _ | .flowEntry :: _ | .flowMappingEnd :: _ => .ok (missing .none, tokens)
      | _ => parseNode handles false false fuel tokens)
    let (v, rest) ← parseFlowValue handles .flowMappingEnd fuel rest
    return ((k, v), rest)

end

/-! ## Documents -/

/-- Takes the directives at the front. There may be one version, which must be known, and each
handle may be declared once. -/
def takeDirectives (version : Bool) (declared : TagHandles) :
    List Token → Except Error (TagHandles × List Token)
  | .versionDirective major minor :: rest =>
    if version ∨ major ≠ 1 ∨ (minor ≠ 1 ∧ minor ≠ 2) then .error .badStructure
    else takeDirectives true declared rest
  | .tagDirective handle shorthand :: rest =>
    if declared.any (·.1 == handle) then .error .badStructure
    else takeDirectives version (declared ++ [(handle, shorthand)]) rest
  | rest => .ok (declared, rest)

/-- Whether the content of a document that has been begun is missing. -/
def endsDocument : List Token → Bool
  | [] | .versionDirective .. :: _ | .tagDirective .. :: _ | .documentStart :: _
  | .documentEnd :: _ => true
  | _ => false

def onlyEnds (tokens : List Token) : Bool := tokens.all (· == .documentEnd)

/-- The node of the only document that tokens spell; none if there are no tokens at all. -/
def ofTokens (tokens : List Token) : Except Error (Option Node) := do
  let fuel := 4 * tokens.length + 4
  match tokens with
  | [] => return none
  | .versionDirective .. :: _ | .tagDirective .. :: _ | .documentStart :: _ =>
    let (declared, rest) ← takeDirectives false [] tokens
    match rest with
    | .documentStart :: rest =>
      let (node, rest) ← (if endsDocument rest then .ok (missing .none, rest)
        else parseNode (declared ++ defaultHandles) true false fuel rest)
      if onlyEnds rest then return some node else .error .severalDocuments
    | _ => .error .badStructure
  | _ =>
    let (node, rest) ← parseNode defaultHandles true false fuel tokens
    if onlyEnds rest then return some node else .error .severalDocuments

end Node

end StreamDispatch.Yaml
