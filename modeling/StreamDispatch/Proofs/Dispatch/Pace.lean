import Mathlib.Algebra.Ring.Nat
import StreamDispatch.Proofs.Dispatch.Timing

set_option autoImplicit false

/-! # How long a worker takes

The worker of a message waits for the handler, at most until the timeout, and then for the sink to
take the reports that it owes: that a handler failed or was too late, or that there was none to
dispatch to. `Site.span` adds this up for an event, without a look at the tasks. On a timely host a
worker that starts at some tick has ended exactly that much later, whatever comes of the reports,
and also if the sink breaks off. -/

namespace StreamDispatch

namespace Site

variable (s : Site) (e : Event)

/-- How many ticks it takes to hand over a report. -/
def publishing (report : PoisonReport) : Nat := (s.dispatcher.sink.delay s.ticket report).ticks

/-- How many ticks a handler is waited for: until it returns, but no longer than its timeout. -/
def patience : Nat :=
  match s.assigned e with
  | .error _ => 0
  | .ok h => (s.performance e h).1.elim h.timeout.ticks fun work => min work.ticks h.timeout.ticks

/-- The reports that the worker of an event waits for, in order. A sink that breaks off when it is
to take the report of a timeout gets a report of that. -/
def awaited (late : Bool) : List PoisonReport :=
  match s.assigned e, late with
  | .error text, _ => [s.errorReport e text]
  | .ok h, false => ((s.performance e h).2.fault?.map (s.errorReport e)).toList
  | .ok h, true =>
    s.timeoutReport e h :: match s.dispatcher.sink.result s.ticket (s.timeoutReport e h) with
      | .brokeOff message =>
        [s.errorReport e (undispatched h.name ("Dispatch panicked: " ++ message))]
      | _ => []

/-- How many ticks the worker of an event takes, depending on whether its handler is too late. -/
def span (late : Bool) : Nat := s.patience e + ((s.awaited e late).map s.publishing).sum

variable {s : Site} {e : Event} {h : Handler} {late : Bool}

/-- An event that is dispatched to no handler takes as long as the report of that. -/
theorem span_of_error {text : String} (ha : s.assigned e = .error text) :
    s.span e late = s.publishing (s.errorReport e text) := by
  simp only [span, patience, awaited, ha]
  rw [List.map_singleton, List.sum_singleton, Nat.zero_add]

/-- A handler that returns in time takes as long as it works. -/
theorem patience_inTime (ha : s.assigned e = .ok h) {work : Duration}
    (hwork : (s.performance e h).1 = some work) (hle : work.ticks ≤ h.timeout.ticks) :
    s.patience e = work.ticks := by
  simp only [patience, ha]
  rw [hwork, Option.elim_some, Nat.min_eq_left hle]

/-- Nothing is to be reported of a handler that completes its work in time. -/
theorem span_completed (ha : s.assigned e = .ok h) (ho : (s.performance e h).2.fault? = none) :
    s.span e false = s.patience e := by
  simp only [span, awaited, ha, ho]
  rw [Option.map_none, Option.toList_none, List.map_nil, List.sum_nil, Nat.add_zero]

theorem span_faulted (ha : s.assigned e = .ok h) {text : String}
    (ho : (s.performance e h).2.fault? = some text) :
    s.span e false = s.patience e + s.publishing (s.errorReport e text) := by
  simp only [span, awaited, ha, ho]
  rw [Option.map_some, Option.toList_some, List.map_singleton, List.sum_singleton]

/-- A handler that is too late is waited for until its timeout. -/
theorem patience_late (ha : s.assigned e = .ok h)
    (hlate : ∀ work, (s.performance e h).1 = some work → h.timeout.ticks ≤ work.ticks) :
    s.patience e = h.timeout.ticks := by
  simp only [patience, ha]
  cases hwork : (s.performance e h).1 with
  | none => rw [Option.elim_none]
  | some work => rw [Option.elim_some, Nat.min_eq_right (hlate work hwork)]

theorem span_late (ha : s.assigned e = .ok h) (hresult : ∀ message,
    s.dispatcher.sink.result s.ticket (s.timeoutReport e h) ≠ .brokeOff message) :
    s.span e true = s.patience e + s.publishing (s.timeoutReport e h) := by
  have hawaited : s.awaited e true = [s.timeoutReport e h] := by
    simp only [awaited, ha]
  rw [span, hawaited, List.map_singleton, List.sum_singleton]

theorem span_lost (ha : s.assigned e = .ok h) {message : String}
    (hresult : s.dispatcher.sink.result s.ticket (s.timeoutReport e h) = .brokeOff message) :
    let text := undispatched h.name ("Dispatch panicked: " ++ message)
    s.span e true = s.patience e + s.publishing (s.timeoutReport e h)
      + s.publishing (s.errorReport e text) := by
  simp only [span, awaited, ha, hresult]
  rw [List.map_cons, List.sum_cons, List.map_singleton, List.sum_singleton, Nat.add_assoc]

end Site

namespace Run

variable {s : Site} {r r' : Run} {os os' : List Occurrence} {start : Nat} {h : Handler}

/-! ## The pace of a message -/

/-- A message whose worker started at a tick is as far as it can be by now. -/
structure Paced (s : Site) (r : Run) (start : Nat) : Prop where
  pending : ∀ due, r.workerDue? = some due → s.now ≤ due
  ready : r.worker = .ready → s.now = start
  racing : ∀ deadline h, r.worker = .racing deadline → s.assigned r.event = .ok h →
    deadline = start + h.timeout.ticks
  timeout : ∀ d h, r.worker = .reportingTimeout d → s.assigned r.event = .ok h →
    d.due = start + s.patience r.event + s.publishing (s.timeoutReport r.event h)
  failure : ∀ d, r.worker = .reportingFailure d → d.due = start + s.span r.event r.timedOut
  fault : ∀ d, r.strand = .reportingFault d → r.timedOut = false →
    d.due = start + s.span r.event false
  /-- A worker whose strand has ended in time does not wait for the clock. -/
  returned : ∀ abnormal, r.strand = .ended abnormal → r.timedOut = false →
    r.worker.isUnfinished = true → s.now = start + s.span r.event false
  finished : r.worker.isUnfinished = false → start + s.span r.event r.timedOut ≤ s.now

/-- Of a worker that has ended the batch takes note, and nothing else happens to it. -/
theorem WorkerStep.finished (step : WorkerStep s r r' os) (hw : r.worker.isUnfinished = false) :
    r'.worker.isUnfinished = false ∧ r'.timedOut = r.timedOut := by
  cases step with
  | noted => exact ⟨rfl, rfl⟩
  | failed _ hw' | launched hw' | won hw' | timedOut hw' | joined hw' | timeoutReported hw'
  | timeoutLost hw' | failureReported _ hw' => simp [hw', Worker.isUnfinished] at hw

/-- A handler that was too late is waited for until its timeout. -/
theorem Life.patience_late (life : Life true s r os) (ha : s.assigned r.event = .ok h)
    (ht : r.timedOut = true) : s.patience r.event = h.timeout.ticks :=
  Site.patience_late ha ((life.onTime ha).late ht)

namespace Paced

theorem new (s : Site) (e : Event) : Paced s (Run.new e) s.now where
  pending _ := nofun
  ready _ := rfl
  racing _ _ := nofun
  timeout _ _ := nofun
  failure _ := nofun
  fault _ := nofun
  returned _ := nofun
  finished := nofun

/-! ## The worker keeps pace -/

/-- A worker ends at the tick that its span says, neither before nor after. -/
theorem ends_now (hp : Paced s r start) (life : Life true s r os) (step : WorkerStep s r r' os')
    (hw : r.worker.isUnfinished = true) (hw' : r'.worker.isUnfinished = false) :
    r'.timedOut = r.timedOut ∧ s.now = start + s.span r.event r.timedOut := by
  cases step with
  | failed | launched | won | timedOut | timeoutLost => cases hw'
  | @joined abnormal hjoining hs =>
    refine ⟨rfl, ?_⟩
    cases life.stage with
    | joining ha hh hs' ht =>
      rw [ht]
      exact hp.returned abnormal hs ht hw
    | _ => simp_all
  | @timeoutReported d hreporting hd hresult =>
    refine ⟨rfl, ?_⟩
    cases life.stage with
    | @reportingTimeout h _ ha hh hs ht hreporting' hdelivers =>
      obtain rfl := Worker.reportingTimeout.inj (hreporting.symm.trans hreporting')
      have hnow := hp.pending d.due (by simp [workerDue?, hreporting])
      have hdue := hp.timeout d h hreporting ha
      rw [ht, Site.span_late ha fun message => hdelivers.result_eq ▸ hresult message]
      omega
    | _ => simp_all [Worker.isUnfinished]
  | @failureReported d abnormal hreporting hd =>
    refine ⟨rfl, ?_⟩
    have hnow := hp.pending d.due (by simp [workerDue?, hreporting])
    have hdue := hp.failure d hreporting
    omega
  | noted hended => simp [hended, Worker.isUnfinished] at hw

theorem set_finished (hp : Paced s r start) {worker : Worker} (hw : worker.isUnfinished = false)
    (hnow : start + s.span r.event r.timedOut ≤ s.now) : Paced s { r with worker } start where
  pending due hdue := by
    cases worker <;> simp_all [workerDue?, Worker.isUnfinished]
  ready hr := by
    cases hr
    cases hw
  racing _ _ hr := by
    cases hr
    cases hw
  timeout _ _ hr := by
    cases hr
    cases hw
  failure _ hr := by
    cases hr
    cases hw
  fault := hp.fault
  returned _ _ _ hu := by
    rw [hw] at hu
    cases hu
  finished _ := hnow

/-- That there is no handler to dispatch to is reported from the start. -/
theorem set_failing (hp : Paced s r start) (life : Life true s r os) (hw : r.worker = .ready)
    {text : String} (ha : s.assigned r.event = .error text) (handler : Option Handler) :
    Paced s
      { r with handler, worker := .reportingFailure (s.delivery (s.errorReport r.event text)) }
      start where
  pending := by simp [workerDue?, Site.delivery]
  ready := by simp
  racing := by simp
  timeout := by simp
  failure := by
    rintro d hd
    cases hd
    show s.now + s.publishing _ = _
    rw [Site.span_of_error ha, hp.ready hw]
  fault := hp.fault
  returned := by
    intro abnormal hs
    cases life.stage with
    | untouched _ _ hs' => simp [hs'] at hs
    | _ => simp_all
  finished := by simp [Worker.isUnfinished]

/-- The timeout of a handler is counted from the start. -/
theorem set_racing (hp : Paced s r start) (hw : r.worker = .ready)
    (ha : s.assigned r.event = .ok h) :
    Paced s
      { r with handler := some h, worker := .racing (s.now + h.timeout.ticks), strand := .ready }
      start where
  pending := by simp [workerDue?]
  ready := by simp
  racing := by
    rintro deadline h' hdeadline ha'
    cases hdeadline
    obtain rfl := Except.ok.inj (ha.symm.trans ha')
    rw [hp.ready hw]
  timeout := by simp
  failure := by simp
  fault := by simp
  returned := by simp
  finished := by simp [Worker.isUnfinished]

/-- A handler is found to be too late at its deadline. -/
theorem set_timedOut (hp : Paced s r start) (ha : s.assigned r.event = .ok h)
    {deadline : Nat} (hw : r.worker = .racing deadline) (hd : deadline ≤ s.now)
    (hpatience : s.patience r.event = h.timeout.ticks) :
    Paced s
      { r with
        worker := .reportingTimeout (s.delivery (s.timeoutReport r.event h)), timedOut := true }
      start where
  pending := by simp [workerDue?, Site.delivery]
  ready := by simp
  racing := by simp
  timeout := by
    rintro d h' hd' ha'
    cases hd'
    obtain rfl := Except.ok.inj (ha.symm.trans ha')
    have hnow := hp.pending deadline (by simp [workerDue?, hw])
    have hdeadline := hp.racing deadline h hw ha
    show s.now + s.publishing (s.timeoutReport r.event h)
      = start + s.patience r.event + s.publishing (s.timeoutReport r.event h)
    rw [hpatience]
    omega
  failure := by simp
  fault := by simp
  returned := by simp
  finished := by simp [Worker.isUnfinished]

/-- A sink that breaks off at the report of a timeout has the worker make another one. -/
theorem set_lost (hp : Paced s r start) (hstage : Stage s r) {d : Delivery} {message : String}
    (hw : r.worker = .reportingTimeout d) (hd : d.due ≤ s.now)
    (hr : d.result = .brokeOff message) :
    let text := undispatched r.handlerName ("Dispatch panicked: " ++ message)
    Paced s { r with worker := .reportingFailure (s.delivery (s.errorReport r.event text)) }
      start := by
  cases hstage with
  | @reportingTimeout h _ ha hh hs htime hw' hdelivers =>
    obtain rfl := Worker.reportingTimeout.inj (hw.symm.trans hw')
    have hnow := hp.pending d.due (by simp [workerDue?, hw])
    have hdue := hp.timeout d h hw ha
    have hname : r.handlerName = h.name := by simp [handlerName, hh]
    have hspan := Site.span_lost ha (hdelivers.result_eq.symm.trans hr)
    exact {
      pending := by simp [workerDue?, Site.delivery]
      ready := by simp
      racing := by simp
      timeout := by simp
      failure := by
        rintro d' hd'
        cases hd'
        show s.now + s.publishing _ = _
        rw [htime, hspan, hname]
        omega
      fault := hp.fault
      returned := fun abnormal hs ht _ =>
        hp.returned abnormal hs ht (by simp [hw, Worker.isUnfinished])
      finished := by simp [Worker.isUnfinished] }
  | _ => simp_all [Worker.isUnfinished]

theorem set_joining (hp : Paced s r start) (hw : r.worker.isUnfinished = true) :
    Paced s { r with worker := .joining } start where
  pending := by simp [workerDue?]
  ready := by simp
  racing := by simp
  timeout := by simp
  failure := by simp
  fault := hp.fault
  returned abnormal hs ht _ := hp.returned abnormal hs ht hw
  finished := by simp [Worker.isUnfinished]

theorem worker_step (hp : Paced s r start) (life : Life true s r os)
    (step : WorkerStep s r r' os') : Paced s r' start := by
  have hlife := life.worker step
  have hends := hp.ends_now life step
  cases step with
  | failed handler hw ha => exact hp.set_failing life hw ha handler
  | launched hw ha => exact hp.set_racing hw ha
  | won hw => exact hp.set_joining (by simp [hw, Worker.isUnfinished])
  | @timedOut deadline h hw hs hd hh =>
    obtain ⟨-, -, h', ha, hh'⟩ := life.stage.racing_of hw
    obtain rfl : h' = h := Option.some.inj (hh'.symm.trans hh)
    exact hp.set_timedOut ha hw hd (hlife.patience_late ha rfl)
  | timeoutLost hw hd hr ht =>
    subst ht
    exact hp.set_lost life.stage hw hd hr
  | joined hw | timeoutReported hw | failureReported _ hw =>
    obtain ⟨-, hnow⟩ := hends (by simp [hw, Worker.isUnfinished]) rfl
    exact hp.set_finished rfl (Nat.le_of_eq hnow.symm)
  | noted hw => exact hp.set_finished rfl (hp.finished (by simp [hw, Worker.isUnfinished]))

/-! ## The strand keeps pace -/

/-- A handler returns in time at the tick up to which it is waited for. -/
theorem returns_now (hp : Paced s r start) (life : Life true s r os)
    (ha : s.assigned r.event = .ok h) (hflight : r.strand.isInFlight = true) {due : Nat}
    (hs : r.strandDue? = some due) (hd : due ≤ s.now) (ht : r.timedOut = false) :
    s.now = start + s.patience r.event := by
  obtain ⟨deadline, hw⟩ := life.stage.racing_of_inFlight hflight ht
  obtain ⟨work, hwork⟩ := (life.strandFits ha).exists_work hflight hs
  have hgap := (life.onTime ha).gap deadline due work hw hflight hs hwork
  have hdue := (life.onTime ha).strand due hs
  have hdeadline := hp.racing deadline h hw ha
  have hnow := hp.pending deadline (by simp [workerDue?, hw])
  rw [Site.patience_inTime ha hwork (by omega)]
  omega

theorem set_strand (hp : Paced s r start) {strand : Strand}
    (hfault : ∀ d, strand = .reportingFault d → r.timedOut = false →
      d.due = start + s.span r.event false)
    (hreturned : ∀ abnormal, strand = .ended abnormal → r.timedOut = false →
      s.now = start + s.span r.event false) : Paced s { r with strand } start where
  pending := hp.pending
  ready := hp.ready
  racing := hp.racing
  timeout := hp.timeout
  failure := hp.failure
  fault := hfault
  returned abnormal hs ht _ := hreturned abnormal hs ht
  finished := hp.finished

/-- The fault of a handler that has returned is reported as soon as it returns. -/
theorem set_faulted (hp : Paced s r start) (life : Life true s r os) {text : String}
    (step : StrandStep s r
      { r with strand := .reportingFault (s.delivery (s.errorReport r.event text)) } os')
    (hflight : r.strand.isInFlight = true) {due : Nat} (hs : r.strandDue? = some due)
    (hd : due ≤ s.now) :
    Paced s { r with strand := .reportingFault (s.delivery (s.errorReport r.event text)) }
      start := by
  refine hp.set_strand ?_ nofun
  intro d hd' ht
  cases hd'
  obtain ⟨h, ha, -⟩ := (life.strand step).stage.assigned_of_strand nofun
  obtain ⟨-, text', ho, hreport⟩ := (life.strand step).strandFits ha
  have hnow := hp.returns_now life ha hflight hs hd ht
  have hspan : s.span r.event false
      = s.patience r.event + s.publishing (s.errorReport r.event text') :=
    Site.span_faulted ha ho
  have hsame : s.errorReport r.event text = s.errorReport r.event text' := hreport
  show s.now + s.publishing (s.errorReport r.event text) = start + s.span r.event false
  rw [hspan, hsame]
  omega

/-- A handler that completes its work in time has its worker end at once. -/
theorem set_completed (hp : Paced s r start) (life : Life true s r os)
    (ha : s.assigned r.event = .ok h) (ho : (s.performance r.event h).2.fault? = none)
    (hflight : r.strand.isInFlight = true) {due : Nat} (hs : r.strandDue? = some due)
    (hd : due ≤ s.now) : Paced s { r with strand := .ended false } start := by
  refine hp.set_strand nofun ?_
  intro _ _ ht
  rw [Site.span_completed ha ho]
  exact hp.returns_now life ha hflight hs hd ht

theorem strand_step (hp : Paced s r start) (life : Life true s r os)
    (step : StrandStep s r r' os') : Paced s r' start := by
  obtain ⟨strand, -, hbefore, -⟩ := step.advances
  obtain ⟨h, ha, hh⟩ := life.stage.assigned_of_strand hbefore
  have hfits := life.strandFits ha
  cases step with
  | called | calledUnknown => exact hp.set_strand nofun nofun
  | completed hs hd ho =>
    rw [hs] at hfits
    exact hp.set_completed life ha (hfits.2.2 ▸ ho) (by simp [hs, Strand.isInFlight])
      (by simp [strandDue?, hs]) hd
  | faulted hs hd ho =>
    exact hp.set_faulted life (.faulted hs hd ho) (by simp [hs, Strand.isInFlight])
      (by simp [strandDue?, hs]) hd
  | unknownReported hs hd hr =>
    rw [hs] at hfits
    have hcompleted : (s.performance r.event h).2 = .completed :=
      Site.performance_eq_completed hfits.1 fun message => hfits.2.result_eq ▸ hr message
    exact hp.set_completed life ha (by rw [hcompleted]; rfl) (by simp [hs, Strand.isInFlight])
      (by simp [strandDue?, hs]) hd
  | unknownLost hs hd hr ho =>
    exact hp.set_faulted life (.unknownLost hs hd hr ho) (by simp [hs, Strand.isInFlight])
      (by simp [strandDue?, hs]) hd
  | @faultReported d abnormal hs hd =>
    refine hp.set_strand (by simp) ?_
    intro _ _ ht
    have hdue := hp.fault d hs ht
    have hnow := (life.onTime ha).strand d.due (by simp [strandDue?, hs])
    omega

/-! ## The clock keeps pace -/

theorem tick (hp : Paced s r start) (hstage : Stage s r) (hr : r.Settled s) :
    Paced { s with now := s.now + 1 } r start where
  pending _ hw := hr.lt_workerDue hw
  ready hw := by
    have hstep := hr.1
    simp [stepWorker, hw] at hstep
  racing := hp.racing
  timeout := hp.timeout
  failure := hp.failure
  fault := hp.fault
  returned abnormal hs ht hw := by
    have hstep := hr.1
    -- The worker has only to take note of the end of the strand.
    cases hstage with
    | racing _ _ _ _ hw' => simp [stepWorker, hw', hs, Strand.hasReturned] at hstep
    | joining _ _ _ _ hw' => simp [stepWorker, hw', hs] at hstep
    | _ => simp_all
  finished hw := Nat.le_succ_of_le (hp.finished hw)

end Paced

end Run

end StreamDispatch
