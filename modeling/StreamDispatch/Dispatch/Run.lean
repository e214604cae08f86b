import StreamDispatch.Dispatch.Dispatcher
import StreamDispatch.Dispatch.Occurrence

set_option autoImplicit false

/-! # The way of one message

Two tasks share the work on a message. The worker chooses a handler, lets it run as a strand of its
own, and waits until the handler has returned or its timeout has passed, whichever comes first. A
handler that returns in time is waited for until its fault, if it has one, is reported; a handler
that does not is reported as timed out and left running. The worker ends in every case, even if the
handler never returns, and whatever else goes wrong is reported as a message that could not be
dispatched.

The strand executes the handler. When it returns, whether it did its work, failed or broke off, the
handler leaves the gate and is counted as processed, once; only then is its fault reported.

Both tasks are functions that take one step if one is due. They may be run in any order. -/

namespace StreamDispatch

/-- A report on its way to the sink. -/
structure Delivery where
  report : PoisonReport
  /-- When it has been handed over. -/
  due : Nat
  result : Handover
  deriving DecidableEq

/-- How far the worker of a message has come. -/
inductive Worker
  | ready
  /-- It waits for the handler, at most until a deadline. -/
  | racing (deadline : Nat)
  /-- The handler has returned in time; the worker waits for the end of the strand. -/
  | joining
  | reportingTimeout (d : Delivery)
  | reportingFailure (d : Delivery)
  /-- It has ended, perhaps by breaking off. -/
  | ended (abnormal : Bool)
  /-- It has ended, and the batch has taken note of it. -/
  | joined
  deriving DecidableEq

/-- How far the strand of a message has come. -/
inductive Strand
  /-- No handler has been called. -/
  | absent
  | ready
  /-- The handler works, perhaps for ever. -/
  | working (due : Option Nat) (outcome : Outcome)
  | reportingUnknown (d : Delivery)
  /-- The handler has returned with a fault. -/
  | reportingFault (d : Delivery)
  /-- It has ended, perhaps by breaking off. -/
  | ended (abnormal : Bool)
  deriving DecidableEq

/-- Whether the worker is still under way. -/
def Worker.isUnfinished : Worker → Bool
  | .ended _ | .joined => false
  | _ => true

/-- Whether the handler has been dispatched and has not returned yet. -/
def Strand.isInFlight : Strand → Bool
  | .ready | .working _ _ | .reportingUnknown _ => true
  | _ => false

def Strand.hasReturned : Strand → Bool
  | .reportingFault _ | .ended _ => true
  | _ => false

/-- A message on its way through a batch. -/
structure Run where
  event : Event
  /-- The handler that was chosen, as soon as it has told its name. -/
  handler : Option Handler
  worker : Worker
  strand : Strand
  /-- Whether the timeout passed before the handler returned. -/
  timedOut : Bool

/-- Where and when a message is worked on. -/
structure Site where
  dispatcher : Dispatcher
  partition : String
  ticket : Ticket
  now : Nat

def Site.deliver (s : Site) (report : PoisonReport) : Delivery × List Occurrence :=
  let sink := s.dispatcher.sink
  (⟨report, s.now + (sink.delay s.ticket report).ticks, sink.result s.ticket report⟩,
    .offered report :: Occurrence.ofLines (sink.lines report))

namespace Run

def new (event : Event) : Run := ⟨event, none, .ready, .absent, false⟩

variable (s : Site) (r : Run)

def context : Context := ⟨s.dispatcher.stream, s.partition, r.event.offset⟩

def messageId : String := r.event.messageId s.dispatcher.stream

def headers : Headers := r.event.correlationHeaders s.dispatcher.stream

/-- The name of the handler, if one has been chosen. -/
def handlerName : String := (r.handler.map (·.name)).getD Handler.unresolvedName

def report (mode : FailureMode) (headers : Headers) (error : Option String) : PoisonReport :=
  ⟨mode, r.context s, r.event.body, headers, error⟩

/-! ## The worker -/

/-- The message could not be dispatched: the worker reports why. -/
def fail (failure : String) : Run × List Occurrence :=
  let report := r.report s .error (r.headers s) (some s!"{r.handlerName}: {failure}")
  let (delivery, occurrences) := s.deliver report
  ({ r with worker := .reportingFailure delivery },
    .logged (Log.error "❌ Message could not be dispatched"
      [("message_id", r.messageId s), ("handler", r.handlerName), ("error", failure)])
    :: occurrences)

/-- The worker breaks off with a message, and reports that. -/
def failBroken (message : String) : Run × List Occurrence :=
  r.fail s ("Dispatch panicked: " ++ message)

/-- The worker has been told the timeout of the handler, and lets it run. -/
def launch (h : Handler) : Run × List Occurrence :=
  ({ r with worker := .racing (s.now + h.timeout.ticks), strand := .ready },
    [.entered, .counted .started])

/-- The worker asks a handler for its name and its timeout. -/
def adopt (h : Handler) : Run × List Occurrence :=
  match h.breaksOnName with
  | some message => r.failBroken s message
  | none =>
    let r := { r with handler := some h }
    match h.breaksOnTimeout with
    | some message => r.failBroken s message
    | none => r.launch s h

/-- The worker chooses a handler. -/
def begin : Run × List Occurrence :=
  let chooser := s.dispatcher.chooser
  let (next, occurrences) := match chooser.choose s.ticket (r.headers s) (r.messageId s) with
    | .handler h => r.adopt s h
    | .invalid e => r.fail s (DispatchError.resolution e.message).message
    | .brokeOff message => r.failBroken s message
  (next, Occurrence.ofLines (chooser.lines (r.headers s) (r.messageId s)) ++ occurrences)

/-- The timeout has passed: the worker reports that, and leaves the handler running. -/
def timeOut : Run × List Occurrence :=
  let timeout := (r.handler.map (·.timeout)).getD ⟨0⟩
  let headers := (r.headers s).insert Headers.timeoutDuration timeout.text
  let error := s!"{r.handlerName} did not complete within {timeout.text}"
  let (delivery, occurrences) := s.deliver (r.report s .timeout headers (some error))
  ({ r with worker := .reportingTimeout delivery, timedOut := true },
    .counted .timedOut
    :: .logged (Log.warn "⏱️ Handler exceeded its timeout, leaving it running"
      [("message_id", r.messageId s), ("handler", r.handlerName),
        ("timeout_ms", toString timeout.millis)])
    :: occurrences)

/-- What is logged when the sink fails to take a report of the worker. -/
def undelivered (message : String) (e : PoisonError) : Occurrence :=
  .logged (Log.error message [("message_id", r.messageId s), ("error", e.message)])

def timeoutReported (d : Delivery) : Run × List Occurrence :=
  let ended := { r with worker := .ended false }
  let (next, occurrences) := match d.result with
    | .kept => (ended, [])
    | .failed e => (ended, [r.undelivered s "Failed to report handler timeout" e])
    | .brokeOff message => r.failBroken s message
  (next, .reported d.report :: occurrences)

def failureReported (d : Delivery) : Run × List Occurrence :=
  let (abnormal, occurrences) := match d.result with
    | .kept => (false, [])
    | .failed e => (false, [r.undelivered s "Failed to report undispatched message" e])
    | .brokeOff _ => (true, [])
  ({ r with worker := .ended abnormal }, .reported d.report :: occurrences)

/-- The strand has ended: so does the worker. -/
def join (abnormal : Bool) : Run × List Occurrence :=
  ({ r with worker := .ended false },
    if abnormal then
      [.logged (Log.error "Handler task ended abnormally"
        [("message_id", r.messageId s), ("handler", r.handlerName)])]
    else [])

/-- A step of the worker, if one is due. If the handler has returned by the time that the worker
looks, it has won, even if the deadline has passed as well. -/
def stepWorker : Option (Run × List Occurrence) :=
  match r.worker with
  | .ready => some (r.begin s)
  | .racing deadline =>
    if r.strand.hasReturned then some ({ r with worker := .joining }, [])
    else if deadline ≤ s.now then some (r.timeOut s)
    else none
  | .joining =>
    match r.strand with
    | .ended abnormal => some (r.join s abnormal)
    | _ => none
  | .reportingTimeout d => if d.due ≤ s.now then some (r.timeoutReported s d) else none
  | .reportingFailure d => if d.due ≤ s.now then some (r.failureReported s d) else none
  | .ended _ | .joined => none

/-! ## The strand -/

def call (h : Handler) : Run × List Occurrence :=
  match h.behavior with
  | .executes run =>
    let e := run s.ticket (r.context s) r.event.body (r.headers s)
    ({ r with strand := .working (e.work.map fun w => s.now + w.ticks) e.outcome },
      .called h.name (r.context s) r.event.body (r.headers s) :: Occurrence.ofLines e.lines)
  | .reportsUnknown =>
    let listed := (r.headers s).toList.map fun (name, value) => name ++ ":" ++ value
    let (delivery, occurrences) := s.deliver (r.report s .unknownPayload (r.headers s) none)
    ({ r with strand := .reportingUnknown delivery },
      .called h.name (r.context s) r.event.body (r.headers s)
      :: .logged (Log.warn "❓ No handler was found for event"
        [("context", (r.context s).text),
          ("headers", String.intercalate "\n" (listed.mergeSort (fun a b => decide (a ≤ b))))])
      :: occurrences)

/-- What is logged when the sink fails to take a report of the strand. -/
def undeliveredByHandler (message : String) (e : PoisonError) : Occurrence :=
  .logged (Log.error message [("context", (r.context s).text), ("error", e.message)])

/-- The handler has returned with a fault, which is reported. -/
def fault (error : String) : Run × List Occurrence :=
  let (delivery, occurrences) := s.deliver (r.report s .error (r.headers s) (some error))
  ({ r with strand := .reportingFault delivery },
    .counted .faulted
    :: .logged (Log.warn "❌ Handler failed"
      [("context", (r.context s).text), ("handler", r.handlerName), ("error", error)])
    :: occurrences)

def complete : Run × List Occurrence :=
  ({ r with strand := .ended false },
    [.logged (Log.debug "✅ Handler completed"
      [("context", (r.context s).text), ("handler", r.handlerName),
        ("timed_out", toString r.timedOut)])])

def finish (outcome : Outcome) : Run × List Occurrence :=
  let (next, occurrences) := match outcome.fault? with
    | none => r.complete s
    | some error => r.fault s error
  (next, [.returned outcome, .left, .counted .ended, .counted .processed] ++ occurrences)

def unknownReported (d : Delivery) : Run × List Occurrence :=
  let (outcome, failed) : Outcome × List Occurrence := match d.result with
    | .kept => (.completed, [])
    | .failed e => (.completed, [r.undeliveredByHandler s "Failed to report unknown payload" e])
    | .brokeOff message => (.brokeOff (some message), [])
  let (next, occurrences) := r.finish s outcome
  (next, .reported d.report :: failed ++ occurrences)

def faultReported (d : Delivery) : Run × List Occurrence :=
  let (abnormal, occurrences) := match d.result with
    | .kept => (false, [])
    | .failed e => (false, [r.undeliveredByHandler s "Failed to report handler failure" e])
    | .brokeOff _ => (true, [])
  ({ r with strand := .ended abnormal }, .reported d.report :: occurrences)

/-- A step of the strand, if one is due. -/
def stepStrand : Option (Run × List Occurrence) :=
  match r.strand with
  | .ready => r.handler.map (r.call s)
  | .working (some due) outcome => if due ≤ s.now then some (r.finish s outcome) else none
  | .reportingUnknown d => if d.due ≤ s.now then some (r.unknownReported s d) else none
  | .reportingFault d => if d.due ≤ s.now then some (r.faultReported s d) else none
  | .absent | .working none _ | .ended _ => none

/-! ## What the tasks wait for -/

/-- The tick that the worker waits for, if it does. -/
def workerDue? : Option Nat :=
  match r.worker with
  | .racing deadline => some deadline
  | .reportingTimeout d | .reportingFailure d => some d.due
  | _ => none

/-- The tick that the strand waits for, if it does. -/
def strandDue? : Option Nat :=
  match r.strand with
  | .working due _ => due
  | .reportingUnknown d | .reportingFault d => some d.due
  | _ => none

end Run

end StreamDispatch
