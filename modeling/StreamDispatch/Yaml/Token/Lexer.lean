import StreamDispatch.Yaml.Token.Tag

set_option autoImplicit false

/-! # From text to tokens

The lexer walks over a text and tells its tokens. Three things need memory. The column at which a
block of entries begins opens the block, and a smaller column closes it. Inside brackets columns
mean nothing. And a word turns out to be the key of a mapping only when a colon follows it, within
the same line and within 1024 characters; the mark of the key then goes in front of the word. -/

namespace StreamDispatch.Yaml

/-- A place where a key may have begun. -/
structure KeyCandidate where
  /-- Whether the place is where the next key of a block must begin. -/
  required : Bool
  /-- The number of tokens before it. -/
  number : Nat
  position : Position
  deriving Repr

/-- The state of the lexer. -/
structure Lexer where
  place : Place
  /-- The tokens, last one first. -/
  tokens : List Token
  count : Nat
  /-- The columns of the open blocks, innermost first. -/
  blocks : List Nat
  /-- The places where a key may have begun: outside brackets first in the tail, and in the
  innermost brackets at the head. -/
  candidates : List (Option KeyCandidate)
  /-- Whether a key may begin here. -/
  keyAllowed : Bool
  deriving Repr

namespace Lexer

def start (text : List Char) : Lexer := ⟨⟨.start, text⟩, [], 0, [], [none], true⟩

/-- Whether brackets are open. -/
def inFlow (s : Lexer) : Bool := 1 < s.candidates.length

def indent? (s : Lexer) : Option Nat := s.blocks.head?

/-- The least column of text that belongs to the innermost block. -/
def contentColumn (s : Lexer) : Nat :=
  match s.indent? with
  | some n => n + 1
  | none => 0

def column (s : Lexer) : Nat := s.place.position.column

def push (s : Lexer) (t : Token) : Lexer :=
  { s with tokens := t :: s.tokens, count := s.count + 1 }

/-- Tells a token in front of those that follow the first `number`. -/
def insert (s : Lexer) (number : Nat) (t : Token) : Lexer :=
  let later := s.count - number
  { s with tokens := s.tokens.take later ++ t :: s.tokens.drop later, count := s.count + 1 }

def at_ (s : Lexer) (p : Place) : Lexer := { s with place := p }

/-- Tells an indicator of some characters, and moves on past it. -/
def indicator (s : Lexer) (t : Token) (length : Nat) : Lexer :=
  (s.push t).at_ (s.place.skip length)

/-- Says whether a key may begin after what has just been told. -/
def allowKey (s : Lexer) (allowed : Bool) : Lexer := { s with keyAllowed := allowed }

/-! ## Keys -/

/-- Whether a candidate is too far back to be a key. -/
def KeyCandidate.isStale (k : KeyCandidate) (p : Position) : Bool :=
  k.position.line < p.line || k.position.index + 1024 < p.index

/-- Gives up the candidates that are too far back. A required one must not be among them. -/
def dropStale (s : Lexer) : Except Error Lexer := do
  let candidates ← s.candidates.mapM fun c =>
    match c with
    | some k =>
      if KeyCandidate.isStale k s.place.position then
        if k.required then .error .missingColon else .ok none
      else .ok (some k)
    | none => (.ok none : Except Error (Option KeyCandidate))
  return { s with candidates }

def dropCandidate (s : Lexer) : Except Error Lexer :=
  match s.candidates with
  | some k :: rest =>
    if k.required then .error .missingColon else .ok { s with candidates := none :: rest }
  | _ => .ok s

def noteCandidate (s : Lexer) : Except Error Lexer := do
  if s.keyAllowed then
    let required := !s.inFlow && s.indent? == some s.column
    let s ← s.dropCandidate
    return { s with
      candidates := some ⟨required, s.count, s.place.position⟩ :: s.candidates.drop 1 }
  else return s

/-! ## Blocks -/

/-- Opens a block at a column if the column lies deeper than the innermost one. The opening token
goes where it is told to, or to the end. -/
def openBlock (s : Lexer) (column : Nat) (t : Token) (number : Option Nat) : Lexer :=
  if s.inFlow || s.indent?.any (column ≤ ·) then s
  else
    let s := { s with blocks := column :: s.blocks }
    match number with
    | some n => s.insert n t
    | none => s.push t

/-- Closes the blocks that lie deeper than a column. -/
def closeBlocks (s : Lexer) (isDeeper : Nat → Bool) : Lexer :=
  if s.inFlow then s
  else
    let closed := s.blocks.takeWhile isDeeper
    let s := closed.foldl (fun s _ => s.push .blockEnd) s
    { s with blocks := s.blocks.drop closed.length }

/-! ## Tokens -/

/-- What may stand between tokens: blanks, comments and line breaks. Tabs may not stand where a key
of a block may begin. Returns whether a key may begin at the place where the next token begins. -/
def skipSpace (inFlow keyAllowed inComment : Bool) (p : Position) : List Char → Bool × Place
  | [] => (keyAllowed, ⟨p, []⟩)
  | '\r' :: '\n' :: rest => skipSpace inFlow (keyAllowed || !inFlow) false (p.down 2) rest
  | c :: rest =>
    if isBreak c then skipSpace inFlow (keyAllowed || !inFlow) false (p.down 1) rest
    else if inComment then skipSpace inFlow keyAllowed true (p.right 1) rest
    else if c == '\ufeff' && p.column == 0 then
      skipSpace inFlow keyAllowed false (p.right 1) rest
    else if c == ' ' || (c == '\t' && (inFlow || !keyAllowed)) then
      skipSpace inFlow keyAllowed false (p.right 1) rest
    else if c == '#' then skipSpace inFlow keyAllowed true (p.right 1) rest
    else (keyAllowed, ⟨p, c :: rest⟩)

/-- The lexer before the next token, with the blocks closed that end before it. -/
def approach (s : Lexer) : Except Error Lexer := do
  let (keyAllowed, place) := skipSpace s.inFlow s.keyAllowed false s.place.position s.place.rest
  let s ← { s with keyAllowed, place }.dropStale
  return s.closeBlocks (s.column < ·)

def finish (s : Lexer) : Except Error Lexer := (s.closeBlocks fun _ => true).dropCandidate

def marker (s : Lexer) (t : Token) : Except Error Lexer := do
  let s ← s.finish
  return (s.allowKey false).indicator t 3

def directive (s : Lexer) : Except Error Lexer := do
  let s ← s.finish
  let (t, p) ← readDirective (s.place.skip 1)
  return ((s.allowKey false).push t).at_ p

def openFlow (s : Lexer) (t : Token) : Except Error Lexer := do
  let s ← s.noteCandidate
  return ({ s with candidates := none :: s.candidates }.allowKey true).indicator t 1

def closeFlow (s : Lexer) (t : Token) : Except Error Lexer := do
  let s ← s.dropCandidate
  let candidates := if s.inFlow then s.candidates.drop 1 else s.candidates
  return ({ s with candidates }.allowKey false).indicator t 1

def flowEntry (s : Lexer) : Except Error Lexer := do
  return ((← s.dropCandidate).allowKey true).indicator .flowEntry 1

def blockEntry (s : Lexer) : Except Error Lexer := do
  if !s.inFlow && !s.keyAllowed then .error .badToken
  else
    let s := s.openBlock s.column .blockSequenceStart none
    return ((← s.dropCandidate).allowKey true).indicator .blockEntry 1

def explicitKey (s : Lexer) : Except Error Lexer := do
  if !s.inFlow && !s.keyAllowed then .error .badToken
  else
    let s := s.openBlock s.column .blockMappingStart none
    return ((← s.dropCandidate).allowKey (!s.inFlow)).indicator .key 1

def value (s : Lexer) : Except Error Lexer :=
  match s.candidates with
  | some k :: rest =>
    let s := { s with candidates := none :: rest }.insert k.number .key
    let s := s.openBlock k.position.column .blockMappingStart (some k.number)
    .ok ((s.allowKey false).indicator .value 1)
  | _ =>
    if !s.inFlow && !s.keyAllowed then .error .badToken
    else
      let s := s.openBlock s.column .blockMappingStart none
      .ok ((s.allowKey (!s.inFlow)).indicator .value 1)

def anchor (s : Lexer) (make : String → Token) : Except Error Lexer := do
  let s ← s.noteCandidate
  let (name, p) ← readAnchor (s.place.skip 1)
  return ((s.allowKey false).push (make name)).at_ p

def tag (s : Lexer) : Except Error Lexer := do
  let s ← s.noteCandidate
  let (t, p) ← readTag s.inFlow s.place
  return ((s.allowKey false).push t).at_ p

def blockScalar (s : Lexer) (literal : Bool) : Except Error Lexer := do
  let s ← s.dropCandidate
  let (text, p) ← readBlockScalar literal s.indent? (s.place.skip 1)
  return ((s.allowKey true).push (.scalar false (String.ofList text))).at_ p

def quotedScalar (s : Lexer) (read : Position → List Char → Scanned) : Except Error Lexer := do
  let s ← s.noteCandidate
  let inside := s.place.skip 1
  let (text, p) ← read inside.position inside.rest
  return ((s.allowKey false).push (.scalar false (String.ofList text))).at_ p

def plainScalar (s : Lexer) : Except Error Lexer := do
  let s ← s.noteCandidate
  let found ← readPlain s.inFlow s.contentColumn [] .none true s.place.position s.place.rest
  return ((s.allowKey found.lineEnded).push (.scalar true (String.ofList found.text))).at_
    found.place

def isIndicator (c : Char) : Bool := "-?:,[]\x7b\x7d#&*!|>'\"%@`".toList.contains c

/-- Whether a plain scalar begins with a character that others follow. -/
def beginsPlain (inFlow : Bool) (c : Char) (rest : List Char) : Bool :=
  !(isBlank c || isBreak c || isIndicator c)
    || (c == '-' && rest.head?.all (!isBlank ·))
    || (!inFlow && (c == '?' || c == ':') && !endsWord rest)

/-- Tells the next token, of which the first character and those after it are given. -/
def scanToken (s : Lexer) (c : Char) (rest : List Char) : Except Error Lexer :=
  if s.column = 0 ∧ c = '%' then s.directive
  else if s.column = 0 ∧ isDocumentMarker (c :: rest) then
    s.marker (if c = '-' then .documentStart else .documentEnd)
  else if c = '[' then s.openFlow .flowSequenceStart
  else if c = '\x7b' then s.openFlow .flowMappingStart
  else if c = ']' then s.closeFlow .flowSequenceEnd
  else if c = '\x7d' then s.closeFlow .flowMappingEnd
  else if c = ',' then s.flowEntry
  else if c = '-' ∧ endsWord rest then s.blockEntry
  else if c = '?' ∧ (s.inFlow || endsWord rest) then s.explicitKey
  else if c = ':' ∧ (s.inFlow || endsWord rest) then s.value
  else if c = '*' then s.anchor .alias
  else if c = '&' then s.anchor .anchor
  else if c = '!' then s.tag
  else if c = '|' ∧ !s.inFlow then s.blockScalar true
  else if c = '>' ∧ !s.inFlow then s.blockScalar false
  else if c = '\'' then s.quotedScalar (readSingleQuoted [] .none)
  else if c = '"' then s.quotedScalar (readDoubleQuoted [] .none .outside)
  else if beginsPlain s.inFlow c rest then s.plainScalar
  else .error .badToken

/-- Tells all tokens. Every token but those that the layout implies takes a character, so there are
no more rounds than characters. -/
def run : Nat → Lexer → Except Error Lexer
  | 0, _ => .error .badToken
  | fuel + 1, s => do
    let s ← s.approach
    match s.place.rest with
    | [] => s.finish
    | c :: rest => run fuel (← s.scanToken c rest)

end Lexer

def Token.ofText (text : String) : Except Error (List Token) := do
  let cs := text.toList
  if cs.all isAllowed then
    let s ← Lexer.run (cs.length + 1) (.start cs)
    return s.tokens.reverse
  else .error .forbiddenCharacter

end StreamDispatch.Yaml
