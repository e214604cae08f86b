import StreamDispatch.Yaml.Char
import StreamDispatch.Yaml.Scalar
import StreamDispatch.Yaml.Value

set_option autoImplicit false

/-! # Writing YAML

A sheet is a mapping of named sections whose fields hold scalars. It is written as block mappings,
indented by two spaces. A text is written as it is where it would be read as the same text.
Otherwise it stands in single quotes, or in double quotes if it holds characters that only an escape
can show; a text of several lines stands as a literal block. -/

namespace StreamDispatch.Yaml

/-- The value of a field. -/
inductive Cell
  | text (s : String)
  | integer (n : Int)
  | bool (b : Bool)
  deriving DecidableEq, Repr, Inhabited

abbrev Sheet := List (String × List (String × Cell))

def Cell.toValue : Cell → Value
  | .text s => .text s
  | .integer n => .integer n
  | .bool b => .bool b

def Sheet.toValue (s : Sheet) : Value :=
  .mapping (s.map fun (name, fields) =>
    (.text name, .mapping (fields.map fun (field, cell) => (.text field, cell.toValue))))

/-! ## What a text is like -/

def isShown (c : Char) : Bool :=
  let n := c.toNat
  n == 0x0A || (0x20 ≤ n && n ≤ 0x7E)
    || (0xA0 ≤ n && n != 0xFEFF && n != 0xFFFE && n != 0xFFFF)

/-- Whether some character is followed by another, of two classes. -/
def hasPair (f g : Char → Bool) : List Char → Bool
  | a :: b :: rest => f a && g b || hasPair f g (b :: rest)
  | _ => false

def isGap (c : Char) : Bool := isBlank c || isBreak c

/-- Whether a text begins like something other than a plain scalar. -/
def beginsMarked : List Char → Bool
  | '-' :: '-' :: '-' :: _ | '.' :: '.' :: '.' :: _ => true
  | c :: rest =>
    "#,[]\x7b\x7d&*!|>'\"%@`".toList.contains c
      || ((c == '?' || c == ':' || c == '-') && endsWord rest)
  | [] => false

/-- Whether a text holds something that would end a plain scalar: a colon before a gap or the end,
or a number sign after a gap. The character before the text is given. -/
def holdsMark (before : Char) : List Char → Bool
  | [] => false
  | c :: rest =>
    (c == ':' && endsWord rest) || (c == '#' && isGap before) || holdsMark c rest

/-- Whether a text may be written as it is, as far as its characters go. -/
def allowsPlain (cs : List Char) : Bool :=
  match cs with
  | [] => true
  | c :: rest =>
    cs.all isShown && cs.all (!isBreak ·) && c != ' ' && cs.getLast? != some ' '
      && !beginsMarked cs && !holdsMark c rest

def allowsSingleQuotes (cs : List Char) : Bool :=
  cs.all isShown && !hasPair (· == ' ') isBreak cs && !hasPair isBreak (· == ' ') cs

def allowsBlock (cs : List Char) : Bool :=
  cs.all isShown && !hasPair (· == ' ') isBreak cs && cs.getLast? != some ' '

/-- Whether a text would be read as something else if it were written as it is. -/
def isAmbiguous (s : String) : Bool :=
  s.isEmpty || isNullText s || (boolText? s).isSome
    || ((integer? s.toList).filter (fitsWord 128)).isSome || isZeroPadded s.toList
    || (float? s).isSome

/-! ## Writing a text -/

def spaces (n : Nat) : List Char := List.replicate n ' '

/-- The characters of a text between single quotes. After a line break the text goes on at the
column of the block. The flag says that a break was the last thing written. -/
def singleQuotedChars (indent : Nat) (afterBreak : Bool) : List Char → List Char
  | [] => if afterBreak then spaces indent else []
  | c :: rest =>
    if isBreak c then c :: singleQuotedChars indent true rest
    else
      (if afterBreak then spaces indent else []) ++ (if c == '\'' then ['\'', '\''] else [c])
        ++ singleQuotedChars indent false rest

/-- The uppercase hexadecimal digits of a number, in a given width. -/
def upperHex : Nat → Nat → List Char
  | 0, _ => []
  | width + 1, n =>
    upperHex width (n / 16) ++ [(Nat.digitChar (n % 16)).toUpper]

def escapeLetter? (c : Char) : Option Char :=
  match c with
  | '\x00' => some '0'
  | '\x07' => some 'a'
  | '\x08' => some 'b'
  | '\t' => some 't'
  | '\n' => some 'n'
  | '\x0b' => some 'v'
  | '\x0c' => some 'f'
  | '\r' => some 'r'
  | '\x1b' => some 'e'
  | '"' => some '"'
  | '\\' => some '\\'
  | '\u0085' => some 'N'
  | '\u2028' => some 'L'
  | '\u2029' => some 'P'
  | _ => none

def doubleQuotedChar (c : Char) : List Char :=
  if isShown c && !isBreak c && c != '"' && c != '\\' then [c]
  else
    match escapeLetter? c with
    | some letter => ['\\', letter]
    | none =>
      if c.toNat ≤ 0xFF then '\\' :: 'x' :: upperHex 2 c.toNat
      else if c.toNat ≤ 0xFFFF then '\\' :: 'u' :: upperHex 4 c.toNat
      else '\\' :: 'U' :: upperHex 8 c.toNat

/-- The header of the literal block of a text: the indentation, where the first line begins with a
blank, and how the breaks at the end are read. -/
def literalHeader (cs : List Char) : List Char :=
  let hint := if cs.head?.any isGap then ['2'] else []
  let chomping := match cs.reverse with
    | a :: b :: _ => if !isBreak a then ['-'] else if isBreak b then ['+'] else []
    | [a] => if isBreak a then ['+'] else ['-']
    | [] => ['-']
  hint ++ chomping

/-- The lines of a literal block. The flag says that a break was the last thing written. -/
def literalLines (indent : Nat) (afterBreak : Bool) : List Char → List Char
  | [] => if afterBreak then [] else ['\n']
  | c :: rest =>
    if isBreak c then c :: literalLines indent true rest
    else (if afterBreak then spaces indent else []) ++ c :: literalLines indent false rest

/-- A text between single quotes if it may stand there, and between double quotes if not, to the end
of its line. -/
def writeQuoted (indent : Nat) (cs : List Char) : List Char :=
  if allowsSingleQuotes cs then '\'' :: singleQuotedChars indent false cs ++ ['\'', '\n']
  else '"' :: cs.flatMap doubleQuotedChar ++ ['"', '\n']

/-- A text as a field whose further lines are indented, to the end of its last line. -/
def writeText (indent : Nat) (s : String) : List Char :=
  let cs := s.toList
  if cs.contains '\n' then
    if allowsBlock cs then '|' :: literalHeader cs ++ '\n' :: literalLines indent true cs
    else '"' :: cs.flatMap doubleQuotedChar ++ ['"', '\n']
  else if !isAmbiguous s && allowsPlain cs then cs ++ ['\n']
  else writeQuoted indent cs

/-! ## Writing a sheet -/

def Cell.write (indent : Nat) : Cell → List Char
  | .text s => writeText indent s
  | .integer n => (toString n).toList ++ ['\n']
  | .bool b => (if b then "true\n" else "false\n").toList

def writeSection (name : String) (fields : List (String × Cell)) : List Char :=
  name.toList ++ [':', '\n'] ++
    fields.flatMap fun (field, cell) => spaces 2 ++ field.toList ++ [':', ' '] ++ cell.write 4

def Sheet.write (s : Sheet) : String :=
  String.ofList (s.flatMap fun (name, fields) => writeSection name fields)

end StreamDispatch.Yaml
