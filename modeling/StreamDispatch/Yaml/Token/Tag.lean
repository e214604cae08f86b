import StreamDispatch.Yaml.Token
import StreamDispatch.Yaml.Token.Scalar

set_option autoImplicit false

/-! # Tags, anchors and directives in a text

A tag is a handle and a suffix, or a whole name between angle brackets. The suffix may hold escaped
bytes, which spell characters in UTF-8. A directive stands on a line of its own before the
document. -/

namespace StreamDispatch.Yaml

/-- Whether a character may stand in a tag; brackets and commas only where that is not ambiguous. -/
def isUriChar (brackets : Bool) (c : Char) : Bool :=
  isNameChar c || ";/?:@&=+$.!~*'()%".toList.contains c || (brackets && ",[]".toList.contains c)

def escapedByte? : List Char → Option Nat
  | '%' :: a :: b :: _ => do return (← hexValue? a) * 16 + (← hexValue? b)
  | _ => none

/-- The number of bytes of a character whose first byte is given, and the bits of that byte. -/
def leadByte? (b : Nat) : Option (Nat × Nat) :=
  if b < 0x80 then some (1, b)
  else if 0xC0 ≤ b ∧ b < 0xE0 then some (2, b - 0xC0)
  else if 0xE0 ≤ b ∧ b < 0xF0 then some (3, b - 0xE0)
  else if 0xF0 ≤ b ∧ b < 0xF8 then some (4, b - 0xF0)
  else none

/-- The code point that continues with some escaped bytes. -/
def continuation? (value : Nat) : Nat → List Char → Option (Nat × List Char)
  | 0, cs => some (value, cs)
  | n + 1, cs => do
    let b ← escapedByte? cs
    if 0x80 ≤ b ∧ b < 0xC0 then continuation? (value * 64 + (b - 0x80)) n (cs.drop 3) else none

/-- The character that escaped bytes at the front spell, and the characters after it. -/
def escapedChar? (cs : List Char) : Option (Char × List Char) := do
  let (n, bits) ← leadByte? (← escapedByte? cs)
  let (value, rest) ← continuation? bits (n - 1) (cs.drop 3)
  return (← codeChar? value, rest)

def unescapeUri (fuel : Nat) (cs : List Char) : Option (List Char) :=
  match fuel, cs with
  | _, [] => some []
  | 0, _ => none
  | fuel + 1, '%' :: rest => do
    let (c, rest) ← escapedChar? ('%' :: rest)
    return c :: (← unescapeUri fuel rest)
  | fuel + 1, c :: rest => (unescapeUri fuel rest).map (c :: ·)

/-- Reads the characters of a tag, and resolves its escapes. -/
def readUri (brackets : Bool) (p : Place) : Scanned :=
  let (raw, rest) := p.takeWhile (isUriChar brackets)
  match unescapeUri raw.length raw with
  | some cs => .ok (cs, rest)
  | none => .error .badToken

/-- Reads a tag handle: an exclamation mark and, where they follow, a name and another one. -/
def readHandle (p : Place) : Scanned :=
  if p.rest.head? ≠ some '!' then .error .badToken
  else
    let (name, rest) := (p.skip 1).takeWhile isNameChar
    if rest.rest.head? = some '!' then .ok ('!' :: name ++ ['!'], rest.skip 1)
    else .ok ('!' :: name, rest)

/-- Reads a tag that is no name between angle brackets: its handle and its suffix. -/
def readShorthand (p : Place) : Except Error (String × String × Place) := do
  let (handle, p) ← readHandle p
  if 1 < handle.length ∧ handle.getLast? = some '!' then
    let (suffix, p) ← readUri false p
    if suffix.isEmpty then .error .badToken
    else return (String.ofList handle, String.ofList suffix, p)
  else
    let (more, p) ← readUri false p
    let suffix := handle.drop 1 ++ more
    if suffix.isEmpty then return ("", "!", p) else return ("!", String.ofList suffix, p)

def readTag (inFlow : Bool) (p : Place) : Except Error (Token × Place) := do
  let (handle, suffix, p) ← (match p.rest with
    | '!' :: '<' :: _ => do
      let (name, p) ← readUri true (p.skip 2)
      if name.isEmpty ∨ p.rest.head? ≠ some '>' then .error .badToken
      else return ("", String.ofList name, p.skip 1)
    | _ => readShorthand p)
  if p.endsWord || (inFlow && p.rest.head? == some ',') then return (.tag handle suffix, p)
  else .error .badToken

def endsAnchor : List Char → Bool
  | [] => true
  | c :: _ => isBlank c || isBreak c || "?:,]\x7d%@`".toList.contains c

def readAnchor (p : Place) : Except Error (String × Place) :=
  let (name, p) := p.takeWhile isNameChar
  if name.isEmpty || !endsAnchor p.rest then .error .badToken else .ok (String.ofList name, p)

def readVersionNumber (p : Place) : Except Error (Nat × Place) :=
  let (digits, p) := p.takeWhile Char.isDigit
  if digits.isEmpty ∨ 9 < digits.length then .error .badToken
  else .ok (digits.foldl (fun n c => n * 10 + (c.toNat - '0'.toNat)) 0, p)

def readVersion (p : Place) : Except Error (Token × Place) := do
  let (major, p) ← readVersionNumber (p.dropWhile isBlank)
  if p.rest.head? ≠ some '.' then .error .badToken
  else
    let (minor, p) ← readVersionNumber (p.skip 1)
    return (.versionDirective major minor, p)

def readTagDirective (p : Place) : Except Error (Token × Place) := do
  let (handle, p) ← readHandle (p.dropWhile isBlank)
  if handle ≠ ['!'] ∧ handle.getLast? ≠ some '!' then .error .badToken
  else if p.rest.head?.all (!isBlank ·) then .error .badToken
  else
    let (shorthand, p) ← readUri true (p.dropWhile isBlank)
    if shorthand.isEmpty || !p.endsWord then .error .badToken
    else return (.tagDirective (String.ofList handle) (String.ofList shorthand), p)

/-- Reads a directive after its percent sign, to the end of its line. -/
def readDirective (p : Place) : Except Error (Token × Place) := do
  let (name, p) := p.takeWhile isNameChar
  if name.isEmpty || !p.endsWord then .error .badToken
  else
    let (token, p) ← (if name = "YAML".toList then readVersion p
      else if name = "TAG".toList then readTagDirective p
      else .error .badToken)
    let p := p.toLineEnd
    if p.rest ≠ [] ∧ p.rest.head?.all (!isBreak ·) then .error .badToken
    else return (token, p.skipBreak)

end StreamDispatch.Yaml
