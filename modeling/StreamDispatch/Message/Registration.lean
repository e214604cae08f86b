import StreamDispatch.Message.Headers
import StreamDispatch.Number.Integer
import StreamDispatch.Text.Blank

set_option autoImplicit false

/-! # Message registrations

Handlers are registered for a message type and a version of it. The headers of an event name the
registration it belongs to: a missing type is the empty text, a missing version is zero, and a
version may have blanks around it but must be a decimal integer of 32 bits. -/

namespace StreamDispatch

/-- A message type and a version of it. -/
structure Registration where
  messageType : String
  version : Int32
  deriving DecidableEq, Repr, Inhabited

namespace Registration

def text (r : Registration) : String := s!"[Type: {r.messageType}, Version: {r.version}]"

def readVersion (s : String) : Except Number.IntegerError Int32 :=
  (Number.readInteger (Nat.pow 2 31) (Nat.pow 2 31 - 1) (Text.trimChars s.toList)).map Int32.ofInt

def ofHeaders (headers : Headers) : Except Number.IntegerError Registration := do
  let messageType := (headers.get? Headers.messageType).getD ""
  match headers.get? Headers.messageTypeVersion with
  | none => return ⟨messageType, 0⟩
  | some raw => return ⟨messageType, ← readVersion raw⟩

/-- Registrations are listed by type and, within a type, by version. -/
def before (a b : Registration) : Bool :=
  a.messageType < b.messageType ∨ a.messageType = b.messageType ∧ a.version < b.version

end Registration

end StreamDispatch
