import StreamDispatch.Duration
import StreamDispatch.Log
import StreamDispatch.Message.Event

set_option autoImplicit false

/-! # Handlers

A handler works on messages. What it does with one is described by an execution: what it logs when
it begins, for how long it works, and what comes of it. A handler may work for ever, and it may
break off instead of returning; it may even break off when it is asked for its name or its
timeout. -/

namespace StreamDispatch

/-- What comes of an execution that ends. -/
inductive Outcome
  | completed
  /-- It failed; the causes stand from the outermost to the innermost. -/
  | failed (causes : List String)
  /-- It broke off, with a message if there is one. -/
  | brokeOff (message : Option String)
  deriving DecidableEq, Repr, Inhabited

def causeText (causes : List String) : String := String.intercalate ": " causes

def breakText (message : Option String) : String := message.getD "Unknown panic"

/-- What is reported of an outcome; nothing for a handler that did its work. -/
def Outcome.fault? : Outcome → Option String
  | .completed => none
  | .failed causes => some (causeText causes)
  | .brokeOff message => some ("Handler panicked: " ++ breakText message)

/-- One execution of a handler. -/
structure Execution where
  /-- What is logged when it begins. -/
  lines : List Log.Line
  /-- How long it works; for ever if absent. -/
  work : Option Duration
  outcome : Outcome
  deriving DecidableEq, Repr, Inhabited

/-- What a handler does with a message. -/
inductive Behavior
  /-- It works on the message. -/
  | executes (run : Ticket → Context → Payload → Headers → Execution)
  /-- It reports the message as one of an unknown type. -/
  | reportsUnknown

/-- A handler of messages. -/
structure Handler where
  name : String
  timeout : Duration
  behavior : Behavior
  /-- The message with which it breaks off when asked for its name, if it does. -/
  breaksOnName : Option String
  /-- The message with which it breaks off when asked for its timeout, if it does. -/
  breaksOnTimeout : Option String
  /-- Whether its executions are kept on record. -/
  recorded : Bool
  /-- A handler that reports unknown types is given some time for that. -/
  patient : behavior = .reportsUnknown → 0 < timeout.ticks := by simp

namespace Handler

/-- A handler that works on messages, keeps no record and answers when asked. -/
def plain (name : String) (timeout : Duration)
    (run : Ticket → Context → Payload → Headers → Execution) : Handler where
  name
  timeout
  behavior := .executes run
  breaksOnName := none
  breaksOnTimeout := none
  recorded := false

/-- What stands for the name of a handler before one has been chosen. -/
def unresolvedName : String := "[handler not yet resolved]"

/-- The handler of the messages whose type no other handler knows. -/
def unknownType : Handler where
  name := "UnknownTypeMessageHandler"
  timeout := .ofSeconds 5
  behavior := .reportsUnknown
  breaksOnName := none
  breaksOnTimeout := none
  recorded := false
  patient := fun _ => by decide

end Handler

end StreamDispatch
