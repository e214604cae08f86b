import StreamDispatch.Json
import StreamDispatch.Number.Shortest

set_option autoImplicit false

/-! # Writing JSON

Two layouts of one text: without any blank, and with every item and every member on a line of its
own, indented by two spaces for each level. In a string the quote, the backslash and the control
characters are escaped, five of the latter by a letter. -/

namespace StreamDispatch.Json

/-- The last two digits of an escape, in lowercase hexadecimal. -/
def hexPair (n : Nat) : List Char := [Nat.digitChar (n / 16), Nat.digitChar (n % 16)]

def escapeChar (c : Char) : List Char :=
  if c = '"' then ['\\', '"']
  else if c = '\\' then ['\\', '\\']
  else if c = '\x08' then ['\\', 'b']
  else if c = '\t' then ['\\', 't']
  else if c = '\n' then ['\\', 'n']
  else if c = '\x0c' then ['\\', 'f']
  else if c = '\r' then ['\\', 'r']
  else if c.toNat < 0x20 then ['\\', 'u', '0', '0'] ++ hexPair c.toNat
  else [c]

def writeString (s : String) : List Char := '"' :: s.toList.flatMap escapeChar ++ ['"']

def writeAtom : Json → List Char
  | .bool true => "true".toList
  | .bool false => "false".toList
  | .integer n => (toString n).toList
  | .float x => if x.isFinite then (x.text .compact).toList else "null".toList
  | .string s => writeString s
  | _ => "null".toList

def newline (depth : Nat) : List Char := '\n' :: List.replicate (2 * depth) ' '

mutual

def writePretty (depth : Nat) : Json → List Char
  | .array [] => ['[', ']']
  | .array (v :: rest) =>
    '[' :: newline (depth + 1) ++ writePretty (depth + 1) v ++ writeItems (depth + 1) rest
      ++ newline depth ++ [']']
  | .object [] => ['\x7b', '\x7d']
  | .object ((k, v) :: rest) =>
    '\x7b' :: newline (depth + 1) ++ writeString k ++ [':', ' '] ++ writePretty (depth + 1) v
      ++ writeMembers (depth + 1) rest ++ newline depth ++ ['\x7d']
  | v => writeAtom v

/-- The items after the first, each after a comma. -/
def writeItems (depth : Nat) : List Json → List Char
  | [] => []
  | v :: rest => ',' :: newline depth ++ writePretty depth v ++ writeItems depth rest

/-- The members after the first, each after a comma. -/
def writeMembers (depth : Nat) : List (String × Json) → List Char
  | [] => []
  | (k, v) :: rest =>
    ',' :: newline depth ++ writeString k ++ [':', ' '] ++ writePretty depth v
      ++ writeMembers depth rest

end

def pretty (v : Json) : String := String.ofList (writePretty 0 v)

mutual

/-- The pieces of a value on one line, in front of the pieces that follow it. -/
def linePieces : Json → List String → List String
  | .array [], tail => "[]" :: tail
  | .array (v :: rest), tail => "[" :: linePieces v (itemPieces rest ("]" :: tail))
  | .object [], tail => "\x7b\x7d" :: tail
  | .object ((k, v) :: rest), tail =>
    "\x7b" :: String.ofList (writeString k) :: ":"
      :: linePieces v (memberPieces rest ("\x7d" :: tail))
  | v, tail => String.ofList (writeAtom v) :: tail

def itemPieces : List Json → List String → List String
  | [], tail => tail
  | v :: rest, tail => "," :: linePieces v (itemPieces rest tail)

def memberPieces : List (String × Json) → List String → List String
  | [], tail => tail
  | (k, v) :: rest, tail =>
    "," :: String.ofList (writeString k) :: ":" :: linePieces v (memberPieces rest tail)

end

def line (v : Json) : String := String.join (linePieces v [])

end StreamDispatch.Json
