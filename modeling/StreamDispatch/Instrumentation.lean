import StreamDispatch.Log

set_option autoImplicit false

/-! # Instrumentation

Running totals of what became of the messages, and the number of handlers at work. A host whose
instrumentation is disabled keeps none. -/

namespace StreamDispatch

/-- The totals at one moment. -/
structure Counters where
  faulted : Nat
  /-- Messages whose handler has returned. -/
  processed : Nat
  /-- Messages whose handler exceeded its timeout. -/
  timeouts : Nat
  current : Int
  deriving DecidableEq, Repr, Inhabited

namespace Counters

def zero : Counters := ⟨0, 0, 0, 0⟩

/-- What the totals count. -/
inductive Happening
  | started
  | ended
  | processed
  | timedOut
  | faulted
  deriving DecidableEq, Repr

def count (c : Counters) : Happening → Counters
  | .started => { c with current := c.current + 1 }
  | .ended => { c with current := c.current - 1 }
  | .processed => { c with processed := c.processed + 1 }
  | .timedOut => { c with timeouts := c.timeouts + 1 }
  | .faulted => { c with faulted := c.faulted + 1 }

end Counters

/-- The counters of a host, if it keeps any. -/
abbrev Instrumentation := Option Counters

namespace Instrumentation

def new (enabled : Bool) : Instrumentation := if enabled then some .zero else none

def newLines (enabled : Bool) (instance_ : String) : List Log.Line :=
  if enabled then []
  else [Log.debug "Instrumentation disabled, using null publisher" [("instance", instance_)]]

/-- Counts a happening, if anything is counted. -/
def count (i : Instrumentation) (h : Counters.Happening) : Instrumentation := i.map (·.count h)

end Instrumentation

end StreamDispatch
