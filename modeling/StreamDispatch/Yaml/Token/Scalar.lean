import StreamDispatch.Yaml.Char
import StreamDispatch.Yaml.Error

set_option autoImplicit false

/-! # Scalars in a text

The five styles of a scalar. A plain, single quoted or double quoted scalar may go on over several
lines: the blanks around a line break are dropped, a single break reads as a space, and of several
breaks all but the first are kept. A literal or folded scalar consists of the lines that are
indented as far as its first one.

Each reader is one pass over the characters. It carries what it has read, last character first, and
the gap that may have to be read as part of the scalar if the scalar goes on after it. -/

namespace StreamDispatch.Yaml

/-- Blanks and line breaks between two words of a scalar. -/
structure Gap where
  /-- The blanks before the first break. -/
  blanks : List Char
  /-- The first break; there is none if it was escaped. -/
  first : List Char
  /-- The breaks after the first. -/
  more : List Char
  /-- Whether there is a break, escaped or not. -/
  broken : Bool
  deriving DecidableEq, Repr, Inhabited

namespace Gap

def none : Gap := ⟨[], [], [], false⟩

def escapedBreak : Gap := ⟨[], [], [], true⟩

def addBlank (g : Gap) (c : Char) : Gap :=
  if g.broken then g else { g with blanks := g.blanks ++ [c] }

def addBreak (g : Gap) (c : Char) : Gap :=
  if g.broken then { g with more := g.more ++ [c] } else ⟨[], [c], [], true⟩

/-- What a gap between two words reads as. -/
def text (g : Gap) : List Char :=
  if !g.broken then g.blanks
  else if g.first = ['\n'] then (if g.more.isEmpty then [' '] else g.more)
  else g.first ++ g.more

end Gap

/-- What a reader has found: the text of a scalar, and the place after it. -/
abbrev Scanned := Except Error (List Char × Place)

/-! ## Quoted scalars -/

/-- Whether a scalar may not go on here, because a document marker starts the line. -/
def marksDocument (p : Position) (cs : List Char) : Bool := p.column == 0 && isDocumentMarker cs

def readSingleQuoted (out : List Char) (gap : Gap) (p : Position) : List Char → Scanned
  | [] => .error .badToken
  | '\r' :: '\n' :: rest => readSingleQuoted out (gap.addBreak '\n') (p.down 2) rest
  | '\'' :: '\'' :: rest =>
    readSingleQuoted ('\'' :: gap.text.reverse ++ out) .none (p.right 2) rest
  | c :: rest =>
    if isBreak c then readSingleQuoted out (gap.addBreak (breakChar c)) (p.down 1) rest
    else if isBlank c then readSingleQuoted out (gap.addBlank c) (p.right 1) rest
    else if marksDocument p (c :: rest) then .error .badToken
    else
      let out := gap.text.reverse ++ out
      if c == '\'' then .ok (out.reverse, ⟨p.right 1, rest⟩)
      else readSingleQuoted (c :: out) .none (p.right 1) rest

def letterEscape? : Char → Option Char
  | '0' => some '\x00'
  | 'a' => some '\x07'
  | 'b' => some '\x08'
  | 't' => some '\t'
  | '\t' => some '\t'
  | 'n' => some '\n'
  | 'v' => some '\x0b'
  | 'f' => some '\x0c'
  | 'r' => some '\r'
  | 'e' => some '\x1b'
  | ' ' => some ' '
  | '"' => some '"'
  | '/' => some '/'
  | '\\' => some '\\'
  | 'N' => some '\u0085'
  | '_' => some '\u00a0'
  | 'L' => some '\u2028'
  | 'P' => some '\u2029'
  | _ => none

/-- The number of hexadecimal digits after a letter that is followed by a code point. -/
def codeLength? : Char → Option Nat
  | 'x' => some 2
  | 'u' => some 4
  | 'U' => some 8
  | _ => none

def hexValue? (c : Char) : Option Nat :=
  if '0' ≤ c ∧ c ≤ '9' then some (c.toNat - '0'.toNat)
  else if 'a' ≤ c ∧ c ≤ 'f' then some (c.toNat - 'a'.toNat + 10)
  else if 'A' ≤ c ∧ c ≤ 'F' then some (c.toNat - 'A'.toNat + 10)
  else none

/-- The character of a code point, if it is one. -/
def codeChar? (n : Nat) : Option Char :=
  if n < 0xD800 ∨ 0xE000 ≤ n ∧ n ≤ 0x10FFFF then some (Char.ofNat n) else none

/-- Where a reader of a double quoted scalar is: between characters, after a backslash, or within
the digits of a code point of which some are still to come. -/
inductive EscapeState
  | outside
  | begun
  | code (value missing : Nat)
  deriving DecidableEq, Repr

def readDoubleQuoted (out : List Char) (gap : Gap) (state : EscapeState) (p : Position) :
    List Char → Scanned
  | [] => .error .badToken
  | c :: rest =>
    match state with
    | .begun =>
      if isBreak c then
        match c, rest with
        | '\r', '\n' :: rest => readDoubleQuoted out .escapedBreak .outside (p.down 2) rest
        | _, rest => readDoubleQuoted out .escapedBreak .outside (p.down 1) rest
      else
        match letterEscape? c, codeLength? c with
        | some e, _ => readDoubleQuoted (e :: out) .none .outside (p.right 1) rest
        | none, some n => readDoubleQuoted out .none (.code 0 n) (p.right 1) rest
        | none, none => .error .badToken
    | .code value missing =>
      match hexValue? c with
      | none => .error .badToken
      | some d =>
        let value := value * 16 + d
        if missing = 1 then
          match codeChar? value with
          | some e => readDoubleQuoted (e :: out) .none .outside (p.right 1) rest
          | none => .error .badToken
        else readDoubleQuoted out .none (.code value (missing - 1)) (p.right 1) rest
    | .outside =>
      if isBreak c then
        match c, rest with
        | '\r', '\n' :: rest => readDoubleQuoted out (gap.addBreak '\n') .outside (p.down 2) rest
        | c, rest => readDoubleQuoted out (gap.addBreak (breakChar c)) .outside (p.down 1) rest
      else if isBlank c then readDoubleQuoted out (gap.addBlank c) .outside (p.right 1) rest
      else if marksDocument p (c :: rest) then .error .badToken
      else
        let out := gap.text.reverse ++ out
        if c == '"' then .ok (out.reverse, ⟨p.right 1, rest⟩)
        else if c == '\\' then readDoubleQuoted out .none .begun (p.right 1) rest
        else readDoubleQuoted (c :: out) .none .outside (p.right 1) rest

/-! ## Plain scalars -/

/-- A plain scalar that has been read: its text, whether a line ended after its last word, and the
place after the gap that follows it. -/
structure PlainScalar where
  text : List Char
  lineEnded : Bool
  place : Place
  deriving Repr

/-- Whether a colon followed by these characters is an error in brackets. -/
def clashesWithColon : List Char → Bool
  | c :: _ => isFlowIndicator c || c == '?'
  | [] => false

/-- Reads a plain scalar. Outside brackets it must be indented by at least `indent` characters, and
no tab may stand before that column in its later lines. The flag `fresh` says that a word may begin
here. -/
def readPlain (inFlow : Bool) (indent : Nat) (out : List Char) (gap : Gap) (fresh : Bool)
    (p : Position) : List Char → Except Error PlainScalar
  | [] => .ok ⟨out.reverse, gap.broken, p, []⟩
  | '\r' :: '\n' :: rest =>
    readPlain inFlow indent out (gap.addBreak '\n') true (p.down 2) rest
  | c :: rest =>
    let done : Except Error PlainScalar := .ok ⟨out.reverse, gap.broken, p, c :: rest⟩
    if isBreak c then
      readPlain inFlow indent out (gap.addBreak (breakChar c)) true (p.down 1) rest
    else if isBlank c then
      if gap.broken && p.column < indent && c == '\t' then .error .badToken
      else readPlain inFlow indent out (gap.addBlank c) true (p.right 1) rest
    else if fresh && !out.isEmpty && !inFlow && p.column < indent then done
    else if fresh && (marksDocument p (c :: rest) || c == '#') then done
    else if inFlow && c == ':' && clashesWithColon rest then .error .badToken
    else if c == ':' && endsWord rest || inFlow && isFlowIndicator c then done
    else
      readPlain inFlow indent (c :: gap.text.reverse ++ out) .none false (p.right 1) rest

/-! ## Literal and folded scalars -/

/-- How the line breaks at the end of a block scalar are read. -/
inductive Chomping
  /-- None is kept. -/
  | strip
  /-- One is kept. -/
  | clip
  /-- All are kept. -/
  | keep
  deriving DecidableEq, Repr, Inhabited

/-- What a block scalar is like, besides its text. -/
structure BlockStyle where
  literal : Bool
  chomping : Chomping
  /-- The least column of its lines if the text does not say it. -/
  least : Nat
  deriving DecidableEq, Repr, Inhabited

/-- How far a block scalar has been read. -/
structure BlockLines where
  /-- What has been read of its lines, last character first. -/
  out : List Char
  /-- The column of its lines, once it is known. -/
  indent : Option Nat
  /-- The widest indentation met so far. -/
  widest : Nat
  /-- The break after the last line that is not empty. -/
  leading : List Char
  /-- The breaks of the empty lines after it. -/
  trailing : List Char
  /-- Whether the last line that is not empty begins with a blank. -/
  leadingBlank : Bool
  /-- Whether a line is being read, beyond its indentation. -/
  inLine : Bool
  deriving Repr, Inhabited

namespace BlockLines

/-- Nothing read yet; the column of the lines may be known from the header. -/
def start (indent : Option Nat) : BlockLines := ⟨[], indent, 0, [], [], false, false⟩

/-- Whether a column still belongs to the indentation. -/
def isIndentation (b : BlockLines) (column : Nat) : Bool := b.indent.all (column < ·)

/-- The state after the indentation of a line that is not empty has been read. -/
def settled (b : BlockLines) (style : BlockStyle) (column : Nat) : BlockLines :=
  let widest := max b.widest column
  { b with widest, indent := some (b.indent.getD (max widest style.least)) }

/-- The breaks before a line that begins with a character. Between two lines of a folded scalar that
begin with no blank, a single break reads as a space. -/
def breaksBefore (b : BlockLines) (style : BlockStyle) (c : Char) : List Char :=
  if !style.literal && b.leading = ['\n'] && !b.leadingBlank && !isBlank c then
    if b.trailing.isEmpty then [' '] else b.trailing
  else b.leading ++ b.trailing

def beginLine (b : BlockLines) (style : BlockStyle) (c : Char) : BlockLines :=
  { b with
    out := c :: (b.breaksBefore style c).reverse ++ b.out
    leading := []
    trailing := []
    leadingBlank := isBlank c
    inLine := true }

def addBreak (b : BlockLines) (column : Nat) (c : Char) : BlockLines :=
  if b.inLine then { b with leading := [c], inLine := false, widest := 0 }
  else { b with trailing := b.trailing ++ [c], widest := max b.widest column }

def text (b : BlockLines) (chomping : Chomping) : List Char :=
  b.out.reverse ++ match chomping with
    | .strip => []
    | .clip => b.leading
    | .keep => b.leading ++ b.trailing

end BlockLines

def readBlock (style : BlockStyle) (b : BlockLines) (p : Position) : List Char → Scanned
  | [] => .ok (b.text style.chomping, ⟨p, []⟩)
  | '\r' :: '\n' :: rest => readBlock style (b.addBreak p.column '\n') (p.down 2) rest
  | c :: rest =>
    if isBreak c then readBlock style (b.addBreak p.column (breakChar c)) (p.down 1) rest
    else if b.inLine then readBlock style { b with out := c :: b.out } (p.right 1) rest
    else if b.isIndentation p.column && c == ' ' then readBlock style b (p.right 1) rest
    else if b.isIndentation p.column && c == '\t' then .error .badToken
    else
      let b := b.settled style p.column
      if b.indent = some p.column then readBlock style (b.beginLine style c) (p.right 1) rest
      else .ok (b.text style.chomping, ⟨p, c :: rest⟩)

def decimalValue? (c : Char) : Option Nat :=
  if '0' ≤ c ∧ c ≤ '9' then some (c.toNat - '0'.toNat) else none

def chomping? : Char → Option Chomping
  | '+' => some .keep
  | '-' => some .strip
  | _ => none

/-- The header of a block scalar after its indicator: the chomping, the indentation if it is given,
and the number of characters. A digit of zero is an error. -/
def readBlockHeader (cs : List Char) : Except Error (Chomping × Option Nat × Nat) :=
  let digit? (cs : List Char) : Option Nat := cs.head?.bind decimalValue?
  let sign? (cs : List Char) : Option Chomping := cs.head?.bind chomping?
  match sign? cs, digit? cs with
  | some s, _ =>
    match digit? (cs.drop 1) with
    | some 0 => .error .badToken
    | some n => .ok (s, some n, 2)
    | none => .ok (s, none, 1)
  | none, some 0 => .error .badToken
  | none, some n =>
    match sign? (cs.drop 1) with
    | some s => .ok (s, some n, 2)
    | none => .ok (.clip, some n, 1)
  | none, none => .ok (.clip, none, 0)

/-- Reads a literal or folded scalar after its indicator. The block around it is indented by
`indent` characters, or is the whole document. -/
def readBlockScalar (literal : Bool) (indent : Option Nat) (p : Place) : Scanned := do
  let (chomping, width, length) ← readBlockHeader p.rest
  let p := (p.skip length).toLineEnd
  if p.rest ≠ [] ∧ p.rest.head?.all (!isBreak ·) then .error .badToken
  else
    let p := p.skipBreak
    let least := match indent with
      | some n => n + 1
      | none => 1
    readBlock ⟨literal, chomping, least⟩ (.start (width.map (indent.getD 0 + ·))) p.position p.rest

end StreamDispatch.Yaml
