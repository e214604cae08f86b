set_option autoImplicit false

/-! # Errors of YAML texts -/

namespace StreamDispatch.Yaml

/-- Why a text is not one YAML document. -/
inductive Error
  /-- A character that no document may hold. -/
  | forbiddenCharacter
  /-- Characters that form no token where they stand. -/
  | badToken
  /-- A line that had to be the key of a mapping. -/
  | missingColon
  /-- Tokens that form no node where they stand. -/
  | badStructure
  /-- A tag whose handle is not declared. -/
  | undefinedTagHandle
  /-- Something after the end of the document. -/
  | severalDocuments
  /-- An alias of a node that has not been named. -/
  | unknownAlias
  /-- Aliases that expand to too much. -/
  | tooManyAliases
  /-- Collections within collections, too often. -/
  | tooDeep
  /-- A key that the mapping has already. -/
  | duplicateKey
  /-- An integer outside the range of numbers. -/
  | integerOutOfRange
  /-- A scalar that is not what its tag says. -/
  | tagMismatch
  deriving DecidableEq, Repr

def Error.message : Error → String
  | .forbiddenCharacter => "control characters are not allowed"
  | .badToken => "found characters that cannot form a token"
  | .missingColon => "could not find expected ':'"
  | .badStructure => "did not find expected node content"
  | .undefinedTagHandle => "found undefined tag handle"
  | .severalDocuments => "found more than one document"
  | .unknownAlias => "unknown anchor"
  | .tooManyAliases => "repetition limit exceeded"
  | .tooDeep => "recursion limit exceeded"
  | .duplicateKey => "duplicate entry in a mapping"
  | .integerOutOfRange => "integer out of range"
  | .tagMismatch => "scalar does not match its tag"

end StreamDispatch.Yaml
