import StreamDispatch.Text.Printable

set_option autoImplicit false

/-! # Quoted text

A text between double quotes in which every character that would not show is written as an escape:
the quote and the backslash by themselves, line feed, carriage return, tab and NUL by a letter, and
every other unprintable character by its code point in lowercase hexadecimal, as in `\u{7f}`. An
apostrophe needs no escape. -/

namespace StreamDispatch.Text

/-- The lowercase hexadecimal digits of a number, without leading zeros. -/
def hexDigits (n : Nat) : List Char := Nat.toDigits 16 n

def quoteChar (c : Char) : List Char :=
  if c = '"' then ['\\', '"']
  else if c = '\\' then ['\\', '\\']
  else if c = '\n' then ['\\', 'n']
  else if c = '\r' then ['\\', 'r']
  else if c = '\t' then ['\\', 't']
  else if c = '\x00' then ['\\', '0']
  else if isPrintable c then [c]
  else ['\\', 'u', '\x7b'] ++ hexDigits c.toNat ++ ['\x7d']

/-- A text between double quotes, with escapes for what would not show. -/
def quoted (s : String) : String :=
  String.ofList ('"' :: s.toList.flatMap quoteChar ++ ['"'])

def quotedList (texts : List String) : String :=
  "[" ++ String.intercalate ", " (texts.map quoted) ++ "]"

end StreamDispatch.Text
