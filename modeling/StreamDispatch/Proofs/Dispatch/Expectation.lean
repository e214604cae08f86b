import StreamDispatch.Dispatch.Run

set_option autoImplicit false

/-! # What is to become of a message

What a dispatcher owes to a message can be said without its tasks: the headers of the event name a
handler, or they are of no use; the handler takes its time and comes to an outcome; and of that a
few reports follow. The definitions here say so for an event at a site, and never look at how far
the work has come. The clock of the site has no part in them. -/

namespace StreamDispatch

/-! ## Added headers do not change who handles a message -/

/-- The text of a report that an event was not dispatched; it begins with the name of the
handler. -/
def undispatched (name failure : String) : String := s!"{name}: {failure}"

/-- What is told of a handler that breaks off when it is asked for its name or its timeout. -/
def Handler.refusal? (h : Handler) : Option String :=
  match h.breaksOnName, h.breaksOnTimeout with
  | some message, _ => some (undispatched unresolvedName ("Dispatch panicked: " ++ message))
  | none, some message => some (undispatched h.name ("Dispatch panicked: " ++ message))
  | none, none => none

/-- A handler that tells its name and its timeout, or what is told if it does not. -/
def Handler.answer (h : Handler) : Except String Handler :=
  match h.refusal? with
  | some text => .error text
  | none => .ok h

namespace Site

variable (s : Site) (e : Event)

/-- Where an event was read. -/
def context : Context := ⟨s.dispatcher.stream, s.partition, e.offset⟩

/-- The headers with which an event is handled. -/
def headers : Headers := e.correlationHeaders s.dispatcher.stream

/-- What identifies an event. -/
def messageId : String := e.messageId s.dispatcher.stream

/-! ## Who handles it -/

/-- Who is chosen to handle an event, or why nobody is. -/
def choice : Choice := s.dispatcher.chooser.choose s.ticket (s.headers e) (s.messageId e)

/-- What is told of an event for which no handler could be chosen. -/
def unresolved (e : InvalidVersion) : String :=
  undispatched Handler.unresolvedName (DispatchError.resolution e.message).message

/-- The handler that an event is dispatched to, or what is told if it is dispatched to none. -/
def assigned : Except String Handler :=
  match s.choice e with
  | .handler h => h.answer
  | .invalid error => .error (unresolved error)
  | .brokeOff message =>
    .error (undispatched Handler.unresolvedName ("Dispatch panicked: " ++ message))

/-! ## What is reported -/

/-- A report on an event. -/
def report (mode : FailureMode) (headers : Headers) (error : Option String) : PoisonReport :=
  ⟨mode, s.context e, e.body, headers, error⟩

/-- The report that an event was not dispatched, or that its handler came to a fault. -/
def errorReport (text : String) : PoisonReport := s.report e .error (s.headers e) (some text)

/-- The report that a handler exceeded its timeout. -/
def timeoutReport (h : Handler) : PoisonReport :=
  s.report e .timeout ((s.headers e).insert Headers.timeoutDuration h.timeout.text)
    (some s!"{h.name} did not complete within {h.timeout.text}")

/-- The report that no handler knows the type of an event. -/
def unknownReport : PoisonReport := s.report e .unknownPayload (s.headers e) none

/-- The way of a report that is handed to the sink now. -/
def delivery (report : PoisonReport) : Delivery :=
  ⟨report, s.now + (s.dispatcher.sink.delay s.ticket report).ticks,
    s.dispatcher.sink.result s.ticket report⟩

/-! ## What the handler does -/

/-- The call of a handler. -/
def call (h : Handler) : Occurrence := .called h.name (s.context e) e.body (s.headers e)

/-- How long a handler works on an event, for ever if nothing is given, and what comes of it. The
handler of unknown types works for as long as its report takes. -/
def performance (h : Handler) : Option Duration × Outcome :=
  match h.behavior with
  | .executes run =>
    let x := run s.ticket (s.context e) e.body (s.headers e)
    (x.work, x.outcome)
  | .reportsUnknown =>
    (some (s.dispatcher.sink.delay s.ticket (s.unknownReport e)),
      match s.dispatcher.sink.result s.ticket (s.unknownReport e) with
      | .brokeOff message => .brokeOff (some message)
      | _ => .completed)

/-- The handler of unknown types completes its work unless the sink breaks off. -/
theorem performance_eq_completed {s : Site} {e : Event} {h : Handler}
    (hb : h.behavior = .reportsUnknown) (hr : ∀ message,
      s.dispatcher.sink.result s.ticket (s.unknownReport e) ≠ .brokeOff message) :
    (s.performance e h).2 = .completed := by
  cases hresult : s.dispatcher.sink.result s.ticket (s.unknownReport e) with
  | brokeOff message => exact absurd hresult (hr message)
  | kept => simp [performance, hb, hresult]
  | failed error => simp [performance, hb, hresult]

/-- What a handler itself reports while it works. -/
def ownReports (h : Handler) : List PoisonReport :=
  match h.behavior with
  | .executes _ => []
  | .reportsUnknown => [s.unknownReport e]

/-- What is reported because of a handler that returns. -/
def returnReports (h : Handler) : List PoisonReport :=
  s.ownReports e h ++ ((s.performance e h).2.fault?.map (s.errorReport e)).toList

/-- All that is reported because of a handler, which may be too late and may never return. -/
def handlerReports (h : Handler) (late : Bool) : List PoisonReport :=
  (if late then [s.timeoutReport e h] else [])
    ++ if (s.performance e h).1.isSome then s.returnReports e h else []

/-! ## The two ways of an event -/

section Resolver

variable {s : Site} {e : Event} {resolver : Resolver}

end Resolver

end Site

end StreamDispatch
