set_option autoImplicit false

/-! # Tokens of YAML

The words of a YAML text. Besides the indicators that stand in the text there are tokens that its
layout implies: the beginning and the end of a block, and the mark of a key that is recognised only
by the colon after it. -/

namespace StreamDispatch.Yaml

/-- A token. -/
inductive Token
  | versionDirective (major minor : Nat)
  | tagDirective (handle shorthand : String)
  | documentStart
  | documentEnd
  | blockSequenceStart
  | blockMappingStart
  | blockEnd
  | flowSequenceStart
  | flowSequenceEnd
  | flowMappingStart
  | flowMappingEnd
  | blockEntry
  | flowEntry
  | key
  | value
  | alias (name : String)
  | anchor (name : String)
  /-- A tag: its handle, and the rest of it. -/
  | tag (handle suffix : String)
  /-- A scalar, and whether it is plain. -/
  | scalar (plain : Bool) (text : String)
  deriving DecidableEq, Repr, Inhabited

end StreamDispatch.Yaml
