set_option autoImplicit false

/-! # Characters in YAML

The classes of characters that the structure of a YAML text depends on, and the position of a
character in a text. -/

namespace StreamDispatch.Yaml

def isAllowed (c : Char) : Bool :=
  let n := c.toNat
  n == 0x09 || n == 0x0A || n == 0x0D || (0x20 ≤ n && n ≤ 0x7E) || n == 0x85
    || (0xA0 ≤ n && n ≤ 0xD7FF) || (0xE000 ≤ n && n ≤ 0xFFFD) || 0x10000 ≤ n

def isBlank (c : Char) : Bool := c == ' ' || c == '\t'

def isBreak (c : Char) : Bool :=
  c == '\n' || c == '\r' || c == '\u0085' || c == '\u2028' || c == '\u2029'

/-- A character that may stand in a name: an ASCII letter or digit, an underscore or a hyphen. -/
def isNameChar (c : Char) : Bool := c.isAlphanum || c == '_' || c == '-'

/-- A character that has a meaning inside brackets. -/
def isFlowIndicator (c : Char) : Bool :=
  c == ',' || c == '[' || c == ']' || c == '\x7b' || c == '\x7d'

/-- Whether a blank, a break or the end of the text stands at the front. -/
def endsWord : List Char → Bool
  | [] => true
  | c :: _ => isBlank c || isBreak c

/-- Whether a document marker stands at the front: three hyphens or dots that end a word. -/
def isDocumentMarker : List Char → Bool
  | '-' :: '-' :: '-' :: rest => endsWord rest
  | '.' :: '.' :: '.' :: rest => endsWord rest
  | _ => false

/-- What a line break reads as. The two that only Unicode knows are kept. -/
def breakChar (c : Char) : Char := if c == '\u2028' || c == '\u2029' then c else '\n'

/-- Where a character stands: how many lines and characters are before it, and how many characters
are before it in its line. -/
structure Position where
  line : Nat
  column : Nat
  index : Nat
  deriving DecidableEq, Repr, Inhabited

namespace Position

def start : Position := ⟨0, 0, 0⟩

def right (p : Position) (n : Nat) : Position := ⟨p.line, p.column + n, p.index + n⟩

def down (p : Position) (n : Nat) : Position := ⟨p.line + 1, 0, p.index + n⟩

end Position

/-- A place in a text: its position, and the characters from there on. -/
structure Place where
  position : Position
  rest : List Char
  deriving Repr, Inhabited

namespace Place

def skip (p : Place) (n : Nat) : Place := ⟨p.position.right n, p.rest.drop n⟩

/-- The place after the characters of a class that belong to the same line, and those characters. -/
def takeWhile (p : Place) (f : Char → Bool) : List Char × Place :=
  let taken := p.rest.takeWhile f
  (taken, p.skip taken.length)

def dropWhile (p : Place) (f : Char → Bool) : Place := (p.takeWhile f).2

/-- The place after a line break, if one stands here. -/
def skipBreak (p : Place) : Place :=
  match p.rest with
  | '\r' :: '\n' :: rest => ⟨p.position.down 2, rest⟩
  | c :: rest => if isBreak c then ⟨p.position.down 1, rest⟩ else p
  | [] => p

/-- Whether a blank, a break or the end of the text stands here. -/
def endsWord (p : Place) : Bool := Yaml.endsWord p.rest

/-- The place after blanks and a comment, to the end of the line. -/
def toLineEnd (p : Place) : Place :=
  let p := p.dropWhile isBlank
  if p.rest.head? = some '#' then p.dropWhile (!isBreak ·) else p

end Place

end StreamDispatch.Yaml
