import StreamDispatch.Message.Event

set_option autoImplicit false

/-! # Poison reports

A message that could not be handled is reported together with everything needed to handle it again:
its payload, its headers, where it was read, and what went wrong. -/

namespace StreamDispatch

/-- Why a message is reported. -/
inductive FailureMode
  /-- No handler knows the type of the message. -/
  | unknownPayload
  /-- The handler failed, or none could be chosen. -/
  | error
  /-- The handler exceeded its timeout. -/
  | timeout
  deriving DecidableEq, Repr, Inhabited

namespace FailureMode

def name : FailureMode → String
  | .unknownPayload => "UnknownPayload"
  | .error => "Error"
  | .timeout => "Timeout"

/-- The failure modes, in the order in which their names are listed. -/
def all : List FailureMode := [.unknownPayload, .error, .timeout]

def ofName? (s : String) : Option FailureMode := all.find? (·.name == s)

theorem ofName?_name (m : FailureMode) : ofName? m.name = some m := by cases m <;> decide

end FailureMode

/-- A report of a message that could not be handled. -/
structure PoisonReport where
  mode : FailureMode
  context : Context
  payload : Payload
  headers : Headers
  /-- What went wrong, where there is something to say. -/
  error : Option String
  deriving DecidableEq, Inhabited

end StreamDispatch
