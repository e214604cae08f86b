set_option autoImplicit false

/-! # Log lines

A log line has a level, a message and named fields. It is written with its fields in ascending order
of their names. -/

namespace StreamDispatch.Log

/-- How urgent a line is. -/
inductive Level
  | debug
  | info
  | warn
  | error
  deriving DecidableEq, Repr, Inhabited

def Level.name : Level → String
  | .debug => "DEBUG"
  | .info => "INFO"
  | .warn => "WARN"
  | .error => "ERROR"

/-- A line of the log. -/
structure Line where
  level : Level
  message : String
  fields : List (String × String)
  deriving DecidableEq, Repr, Inhabited

def debug (message : String) (fields : List (String × String)) : Line := ⟨.debug, message, fields⟩

def info (message : String) (fields : List (String × String)) : Line := ⟨.info, message, fields⟩

def warn (message : String) (fields : List (String × String)) : Line := ⟨.warn, message, fields⟩

def error (message : String) (fields : List (String × String)) : Line := ⟨.error, message, fields⟩

def Line.text (l : Line) : String :=
  let fields := l.fields.mergeSort (fun a b => decide (a.1 ≤ b.1))
  l.level.name ++ " " ++ l.message
    ++ String.join (fields.map fun (name, value) => " | " ++ name ++ "=" ++ value)

def batch (stream partition : String) (count : Nat) (status : String) : Line :=
  info s!"📦 BATCH {stream}/{partition}/{count}/{status}"
    [("stream", stream), ("partition_id", partition), ("count", toString count),
      ("status", status)]

def failure (component operation error : String) (context : Option String) : Line :=
  Log.error "❌ ERROR"
    ([("component", component), ("operation", operation), ("error", error)]
      ++ (context.map fun c => ("context", c)).toList)

end StreamDispatch.Log
