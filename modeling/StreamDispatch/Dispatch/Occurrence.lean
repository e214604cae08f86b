import StreamDispatch.Handler
import StreamDispatch.Instrumentation
import StreamDispatch.Poison.Report

set_option autoImplicit false

/-! # What happens on a host

Every step of the work on a batch is described by what happens in it. What happens changes the gate
of the lease, the counters of the host and the number of checkpoints, and is entered in a
journal. -/

namespace StreamDispatch

/-- Something that happens. -/
inductive Occurrence
  | logged (line : Log.Line)
  | counted (happening : Counters.Happening)
  /-- A batch hands an event to a worker of its own. -/
  | handedOut (event : Event)
  /-- A handler enters the gate. -/
  | entered
  /-- A handler leaves the gate. -/
  | left
  /-- A handler, of which the name is given, begins to work on the message. -/
  | called (handler : String) (context : Context) (body : Payload) (headers : Headers)
  /-- The handler of the message has returned. -/
  | returned (outcome : Outcome)
  /-- The sink begins to take a report. -/
  | offered (report : PoisonReport)
  /-- A report has been handed over, whatever came of it. -/
  | reported (report : PoisonReport)
  | checkpointed
  deriving DecidableEq

/-- Where something happens. -/
inductive Place
  | host
  | batch (index : Nat)
  | message (ticket : Ticket)
  deriving DecidableEq, Repr

/-- An entry of the journal. -/
structure Entry where
  time : Nat
  place : Place
  occurrence : Occurrence
  deriving DecidableEq

def Occurrence.ofLines (lines : List Log.Line) : List Occurrence := lines.map .logged

def Instrumentation.record (i : Instrumentation) : Occurrence → Instrumentation
  | .counted h => i.count h
  | _ => i

end StreamDispatch
