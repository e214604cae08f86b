import StreamDispatch.Proofs.Dispatch.Expectation

set_option autoImplicit false

/-! # The steps of a message

`Run.WorkerStep` and `Run.StrandStep` list everything that can happen to a message in one step of
its worker or of its strand, together with what is entered in the journal, log lines apart. The
functions that take the steps are unfolded here and nowhere else: that a function takes a step is
turned into one of the cases of the lists, and every later proof goes by these cases. -/

namespace StreamDispatch

/-! ## Deeds: what happens apart from log lines -/

/-- Whether something that happens is only a log line. -/
def Occurrence.isLogged : Occurrence → Bool
  | .logged _ => true
  | _ => false

/-- What happens, log lines left out. -/
def Occurrence.deeds (os : List Occurrence) : List Occurrence := os.filter (!·.isLogged)

open Occurrence (deeds ofLines)

@[simp] theorem deeds_nil : deeds [] = [] := rfl

@[simp] theorem deeds_append (os os' : List Occurrence) :
    deeds (os ++ os') = deeds os ++ deeds os' := List.filter_append ..

@[simp] theorem deeds_ofLines (lines : List Log.Line) : deeds (ofLines lines) = [] := by
  simp [deeds, ofLines, Occurrence.isLogged]

@[simp] theorem deeds_cons (o : Occurrence) (os : List Occurrence) :
    deeds (o :: os) = if o.isLogged then deeds os else o :: deeds os := by
  cases o <;> rfl

/-- What happens when a handler leaves the gate with an outcome. -/
def Occurrence.leaving (outcome : Outcome) : List Occurrence :=
  [.returned outcome, .left, .counted .ended, .counted .processed]

namespace Run

/-! ## Steps -/

/-- One step of the worker of a message at a site, or of the batch that takes note of its end: the
message afterwards, and the deeds. -/
inductive WorkerStep (s : Site) (r : Run) : Run → List Occurrence → Prop
  | failed {text : String} (handler : Option Handler) (hw : r.worker = .ready)
      (ha : s.assigned r.event = .error text) :
      WorkerStep s r
        { r with handler, worker := .reportingFailure (s.delivery (s.errorReport r.event text)) }
        [.offered (s.errorReport r.event text)]
  | launched {h : Handler} (hw : r.worker = .ready) (ha : s.assigned r.event = .ok h) :
      WorkerStep s r
        { r with handler := some h, worker := .racing (s.now + h.timeout.ticks), strand := .ready }
        [.entered, .counted .started]
  | won {deadline : Nat} (hw : r.worker = .racing deadline)
      (hs : r.strand.hasReturned = true) :
      WorkerStep s r { r with worker := .joining } []
  | timedOut {deadline : Nat} {h : Handler} (hw : r.worker = .racing deadline)
      (hs : r.strand.hasReturned = false) (hd : deadline ≤ s.now) (hh : r.handler = some h) :
      WorkerStep s r
        { r with
          worker := .reportingTimeout (s.delivery (s.timeoutReport r.event h)), timedOut := true }
        [.counted .timedOut, .offered (s.timeoutReport r.event h)]
  | joined {abnormal : Bool} (hw : r.worker = .joining) (hs : r.strand = .ended abnormal) :
      WorkerStep s r { r with worker := .ended false } []
  | timeoutReported {d : Delivery} (hw : r.worker = .reportingTimeout d) (hd : d.due ≤ s.now)
      (hr : ∀ message, d.result ≠ .brokeOff message) :
      WorkerStep s r { r with worker := .ended false } [.reported d.report]
  | timeoutLost {d : Delivery} {message text : String} (hw : r.worker = .reportingTimeout d)
      (hd : d.due ≤ s.now) (hr : d.result = .brokeOff message)
      (ht : text = undispatched r.handlerName ("Dispatch panicked: " ++ message)) :
      WorkerStep s r
        { r with worker := .reportingFailure (s.delivery (s.errorReport r.event text)) }
        [.reported d.report, .offered (s.errorReport r.event text)]
  | failureReported {d : Delivery} (abnormal : Bool) (hw : r.worker = .reportingFailure d)
      (hd : d.due ≤ s.now) :
      WorkerStep s r { r with worker := .ended abnormal } [.reported d.report]
  | noted {abnormal : Bool} (hw : r.worker = .ended abnormal) :
      WorkerStep s r { r with worker := .joined } []

/-- One step of the strand of a message at a site. -/
inductive StrandStep (s : Site) (r : Run) : Run → List Occurrence → Prop
  | called {h : Handler} {run : Ticket → Context → Payload → Headers → Execution}
      (hs : r.strand = .ready) (hh : r.handler = some h) (hb : h.behavior = .executes run) :
      StrandStep s r
        { r with
          strand := .working ((s.performance r.event h).1.map fun w => s.now + w.ticks)
            (s.performance r.event h).2 }
        [s.call r.event h]
  | calledUnknown {h : Handler} (hs : r.strand = .ready) (hh : r.handler = some h)
      (hb : h.behavior = .reportsUnknown) :
      StrandStep s r
        { r with strand := .reportingUnknown (s.delivery (s.unknownReport r.event)) }
        [s.call r.event h, .offered (s.unknownReport r.event)]
  | completed {due : Nat} {outcome : Outcome} (hs : r.strand = .working (some due) outcome)
      (hd : due ≤ s.now) (ho : outcome.fault? = none) :
      StrandStep s r { r with strand := .ended false } (Occurrence.leaving outcome)
  | faulted {due : Nat} {outcome : Outcome} {text : String}
      (hs : r.strand = .working (some due) outcome) (hd : due ≤ s.now)
      (ho : outcome.fault? = some text) :
      StrandStep s r
        { r with strand := .reportingFault (s.delivery (s.errorReport r.event text)) }
        (Occurrence.leaving outcome ++ [.counted .faulted, .offered (s.errorReport r.event text)])
  | unknownReported {d : Delivery} (hs : r.strand = .reportingUnknown d) (hd : d.due ≤ s.now)
      (hr : ∀ message, d.result ≠ .brokeOff message) :
      StrandStep s r { r with strand := .ended false }
        (.reported d.report :: Occurrence.leaving .completed)
  | unknownLost {d : Delivery} {message text : String} (hs : r.strand = .reportingUnknown d)
      (hd : d.due ≤ s.now) (hr : d.result = .brokeOff message)
      (ho : (Outcome.brokeOff (some message)).fault? = some text) :
      StrandStep s r
        { r with strand := .reportingFault (s.delivery (s.errorReport r.event text)) }
        (.reported d.report :: Occurrence.leaving (.brokeOff (some message))
          ++ [.counted .faulted, .offered (s.errorReport r.event text)])
  | faultReported {d : Delivery} (abnormal : Bool) (hs : r.strand = .reportingFault d)
      (hd : d.due ≤ s.now) :
      StrandStep s r { r with strand := .ended abnormal } [.reported d.report]

/-! ## The steps of the tasks are such steps -/

variable {s : Site} {r r' : Run} {os : List Occurrence}

@[simp] theorem context_eq : r.context s = s.context r.event := rfl

@[simp] theorem headers_eq : r.headers s = s.headers r.event := rfl

@[simp] theorem report_eq (mode : FailureMode) (headers : Headers) (error : Option String) :
    r.report s mode headers error = s.report r.event mode headers error := rfl

@[simp] theorem deliver_fst (report : PoisonReport) :
    (s.deliver report).1 = s.delivery report := rfl

@[simp] theorem deeds_deliver (report : PoisonReport) :
    deeds (s.deliver report).2 = [.offered report] := by
  simp [Site.deliver, Occurrence.isLogged]

/-- Why a message could not be dispatched, with the name of the handler as far as it is known. -/
theorem fail_fst (failure : String) :
    (r.fail s failure).1 =
      let report := s.errorReport r.event (undispatched r.handlerName failure)
      { r with worker := .reportingFailure (s.delivery report) } :=
  rfl

theorem deeds_fail (failure : String) : deeds (r.fail s failure).2
    = [.offered (s.errorReport r.event (undispatched r.handlerName failure))] := by
  have hreport : s.errorReport r.event (undispatched r.handlerName failure)
      = r.report s .error (r.headers s) (some s!"{r.handlerName}: {failure}") := rfl
  rw [hreport]
  simp [fail, Occurrence.isLogged]

/-- A handler that is asked for its name and its timeout is let run, unless it breaks off. -/
theorem step_adopt {h : Handler} (hw : r.worker = .ready) (hr : r.handler = none)
    (hc : s.choice r.event = .handler h) :
    WorkerStep s r (r.adopt s h).1 (deeds (r.adopt s h).2) := by
  have ha : s.assigned r.event = h.answer := by simp only [Site.assigned, hc]
  have hname : r.handlerName = Handler.unresolvedName := by simp [handlerName, hr]
  unfold adopt
  cases hn : h.breaksOnName with
  | some message =>
    simp only [Handler.answer, Handler.refusal?, hn] at ha
    have hstep := WorkerStep.failed r.handler hw ha
    simpa only [failBroken, deeds_fail, fail_fst, hname] using hstep
  | none =>
    cases ht : h.breaksOnTimeout with
    | some message =>
      simp only [Handler.answer, Handler.refusal?, hn, ht] at ha
      have hname : ({ r with handler := some h } : Run).handlerName = h.name := rfl
      have hstep := WorkerStep.failed (some h) hw ha
      simpa only [failBroken, deeds_fail, fail_fst, hname] using hstep
    | none =>
      simp only [Handler.answer, Handler.refusal?, hn, ht] at ha
      exact WorkerStep.launched hw ha

theorem step_begin (hw : r.worker = .ready) (hr : r.handler = none) :
    WorkerStep s r (r.begin s).1 (deeds (r.begin s).2) := by
  have hname : r.handlerName = Handler.unresolvedName := by simp [handlerName, hr]
  have hchoice : s.dispatcher.chooser.choose s.ticket (r.headers s) (r.messageId s)
      = s.choice r.event := rfl
  cases hc : s.choice r.event with
  | handler h =>
    simpa only [begin, hchoice, hc, deeds_append, deeds_ofLines, List.nil_append]
      using step_adopt hw hr hc
  | invalid e =>
    have ha : s.assigned r.event = .error (Site.unresolved e) := by simp only [Site.assigned, hc]
    have hstep := WorkerStep.failed r.handler hw ha
    simp only [Site.unresolved] at hstep
    simpa only [begin, hchoice, hc, deeds_append, deeds_ofLines, List.nil_append, deeds_fail,
      fail_fst, hname] using hstep
  | brokeOff message =>
    have ha : s.assigned r.event = .error
        (undispatched Handler.unresolvedName ("Dispatch panicked: " ++ message)) := by
      simp only [Site.assigned, hc]
    have hstep := WorkerStep.failed r.handler hw ha
    simpa only [begin, hchoice, hc, failBroken, deeds_append, deeds_ofLines, List.nil_append,
      deeds_fail, fail_fst, hname] using hstep

theorem step_timeOut {deadline : Nat} {h : Handler} (hw : r.worker = .racing deadline)
    (hs : r.strand.hasReturned = false) (hd : deadline ≤ s.now) (hh : r.handler = some h) :
    WorkerStep s r (r.timeOut s).1 (deeds (r.timeOut s).2) := by
  have hname : r.handlerName = h.name := by simp [handlerName, hh]
  have hstep := WorkerStep.timedOut (s := s) hw hs hd hh
  simp only [Site.timeoutReport] at hstep
  simpa [timeOut, hh, hname, Occurrence.isLogged] using hstep

theorem step_timeoutReported {d : Delivery} (hw : r.worker = .reportingTimeout d)
    (hd : d.due ≤ s.now) :
    WorkerStep s r (r.timeoutReported s d).1 (deeds (r.timeoutReported s d).2) := by
  unfold timeoutReported
  cases hr : d.result with
  | kept => exact .timeoutReported hw hd (by simp [hr])
  | failed e => exact .timeoutReported hw hd (by simp [hr])
  | brokeOff message =>
    simp only [failBroken, fail_fst, deeds_cons, deeds_fail]
    exact .timeoutLost hw hd hr rfl

theorem step_failureReported {d : Delivery} (hw : r.worker = .reportingFailure d)
    (hd : d.due ≤ s.now) :
    WorkerStep s r (r.failureReported s d).1 (deeds (r.failureReported s d).2) := by
  unfold failureReported
  cases d.result <;> exact .failureReported _ hw hd

theorem step_join {abnormal : Bool} (hw : r.worker = .joining)
    (hs : r.strand = .ended abnormal) :
    WorkerStep s r (r.join s abnormal).1 (deeds (r.join s abnormal).2) := by
  cases abnormal <;> exact .joined hw hs

/-- A step of the worker is one of those that are listed. -/
theorem step_worker (hfresh : r.worker = .ready → r.handler = none)
    (hchosen : ∀ deadline, r.worker = .racing deadline → ∃ h, r.handler = some h)
    (h : r.stepWorker s = some (r', os)) : WorkerStep s r r' (deeds os) := by
  unfold stepWorker at h
  cases hw : r.worker with
  | ready =>
    simp only [hw, Option.some.injEq] at h
    simpa only [h] using step_begin (s := s) hw (hfresh hw)
  | racing deadline =>
    simp only [hw] at h
    split at h
    · next hs =>
      cases h
      exact .won hw hs
    · next hs =>
      split at h
      · next hd =>
        obtain ⟨handler, hh⟩ := hchosen deadline hw
        simp only [Option.some.injEq] at h
        simpa only [h] using step_timeOut hw (by simpa using hs) hd hh
      · cases h
  | joining =>
    simp only [hw] at h
    split at h
    · next abnormal hs =>
      simp only [Option.some.injEq] at h
      simpa only [h] using step_join (s := s) hw hs
    · cases h
  | reportingTimeout d =>
    simp only [hw, Option.ite_none_right_eq_some, Option.some.injEq] at h
    simpa only [h.2] using step_timeoutReported hw h.1
  | reportingFailure d =>
    simp only [hw, Option.ite_none_right_eq_some, Option.some.injEq] at h
    simpa only [h.2] using step_failureReported hw h.1
  | ended abnormal => simp [hw] at h
  | joined => simp [hw] at h

theorem step_call {h : Handler} (hs : r.strand = .ready) (hh : r.handler = some h) :
    StrandStep s r (r.call s h).1 (deeds (r.call s h).2) := by
  cases hb : h.behavior with
  | executes run =>
    have hstep := StrandStep.called (s := s) hs hh hb
    simp only [Site.performance, hb, Site.call] at hstep
    simpa [call, hb, Occurrence.isLogged] using hstep
  | reportsUnknown =>
    have hstep := StrandStep.calledUnknown (s := s) hs hh hb
    simp only [Site.unknownReport, Site.call] at hstep
    simpa [call, hb, Occurrence.isLogged] using hstep

/-- What a strand comes to when its handler returns with an outcome, and what happens next. -/
theorem finish_completed (s : Site) (r : Run) {outcome : Outcome} (ho : outcome.fault? = none) :
    (r.finish s outcome).1 = { r with strand := .ended false } ∧
      deeds (r.finish s outcome).2 = Occurrence.leaving outcome := by
  simp [finish, ho, complete, Occurrence.leaving, Occurrence.isLogged]

theorem finish_faulted (s : Site) (r : Run) {outcome : Outcome} {text : String}
    (ho : outcome.fault? = some text) :
    (r.finish s outcome).1
        = { r with strand := .reportingFault (s.delivery (s.errorReport r.event text)) } ∧
      deeds (r.finish s outcome).2 = Occurrence.leaving outcome
        ++ [.counted .faulted, .offered (s.errorReport r.event text)] := by
  simp [finish, ho, fault, Occurrence.leaving, Occurrence.isLogged, Site.errorReport]

theorem step_finish {due : Nat} {outcome : Outcome} (hs : r.strand = .working (some due) outcome)
    (hd : due ≤ s.now) : StrandStep s r (r.finish s outcome).1 (deeds (r.finish s outcome).2) := by
  cases ho : outcome.fault? with
  | none =>
    obtain ⟨hrun, hdeeds⟩ := finish_completed s r ho
    rw [hrun, hdeeds]
    exact .completed hs hd ho
  | some text =>
    obtain ⟨hrun, hdeeds⟩ := finish_faulted s r ho
    rw [hrun, hdeeds]
    exact .faulted hs hd ho

theorem step_unknownReported {d : Delivery} (hs : r.strand = .reportingUnknown d)
    (hd : d.due ≤ s.now) :
    StrandStep s r (r.unknownReported s d).1 (deeds (r.unknownReported s d).2) := by
  unfold unknownReported
  have hcompleted : Outcome.completed.fault? = none := rfl
  obtain ⟨hrun, hdeeds⟩ := finish_completed s r hcompleted
  cases hr : d.result with
  | kept =>
    have hstep := StrandStep.unknownReported (s := s) hs hd (by simp [hr])
    simpa [hrun, hdeeds, Occurrence.isLogged] using hstep
  | failed e =>
    have hstep := StrandStep.unknownReported (s := s) hs hd (by simp [hr])
    simpa [hrun, hdeeds, undeliveredByHandler, Occurrence.isLogged] using hstep
  | brokeOff message =>
    have hfault : (Outcome.brokeOff (some message)).fault?
        = some ("Handler panicked: " ++ message) :=
      rfl
    obtain ⟨hrun, hdeeds⟩ := finish_faulted s r hfault
    have hstep := StrandStep.unknownLost (s := s) hs hd hr hfault
    simpa [hrun, hdeeds, Occurrence.isLogged] using hstep

theorem step_faultReported {d : Delivery} (hs : r.strand = .reportingFault d)
    (hd : d.due ≤ s.now) :
    StrandStep s r (r.faultReported s d).1 (deeds (r.faultReported s d).2) := by
  unfold faultReported
  cases d.result <;> exact .faultReported _ hs hd

/-- A step of the strand is one of those that are listed. -/
theorem step_strand (h : r.stepStrand s = some (r', os)) : StrandStep s r r' (deeds os) := by
  unfold stepStrand at h
  cases hs : r.strand with
  | absent => simp [hs] at h
  | ready =>
    simp only [hs, Option.map_eq_some_iff] at h
    obtain ⟨handler, hh, hcall⟩ := h
    simpa only [hcall] using step_call (s := s) hs hh
  | working due outcome =>
    cases due with
    | none => simp [hs] at h
    | some due =>
      simp only [hs, Option.ite_none_right_eq_some, Option.some.injEq] at h
      simpa only [h.2] using step_finish hs h.1
  | reportingUnknown d =>
    simp only [hs, Option.ite_none_right_eq_some, Option.some.injEq] at h
    simpa only [h.2] using step_unknownReported hs h.1
  | reportingFault d =>
    simp only [hs, Option.ite_none_right_eq_some, Option.some.injEq] at h
    simpa only [h.2] using step_faultReported hs h.1
  | ended abnormal => simp [hs] at h

end Run

end StreamDispatch
