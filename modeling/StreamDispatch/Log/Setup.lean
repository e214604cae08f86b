import StreamDispatch.FileTree
import StreamDispatch.Log

set_option autoImplicit false

/-! # Where log lines go

Lines go to the console and, if the directory for them can be made, to a file that is named for the
environment, the process and the time. In production only lines from INFO upwards are written. -/

namespace StreamDispatch.Log

/-- The rank of a level; the more urgent level has the higher one. -/
def Level.rank : Level → Nat
  | .debug => 0
  | .info => 1
  | .warn => 2
  | .error => 3

def leastLevel (environment : String) : Level :=
  if environment = "production" then .info else .debug

def isWritten (environment : String) (level : Level) : Bool :=
  (leastLevel environment).rank ≤ level.rank

def directory : String := "log"

def fileName (environment process time : String) : String := s!"{environment}.{process}.{time}.log"

/-- The log file of a process; none if the directory cannot be made. -/
def file? (t : FileTree) (environment process time : String) : Option String :=
  match t.makeDirectories directory with
  | (_, .ok _) => some (fileName environment process time)
  | (_, .error _) => none

def started (environment process : String) : Line :=
  info "🔧 STRUCTURED LOGGING: Initialized"
    [("pid", process), ("environment", environment), ("log_dir", directory)]

end StreamDispatch.Log
