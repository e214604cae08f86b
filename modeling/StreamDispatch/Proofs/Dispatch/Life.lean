import StreamDispatch.Proofs.Dispatch.Message

set_option autoImplicit false

/-! # The life of a message

`Run.Life` is the set of all states that a message can come to, each with its deeds so far. What a
message can be proved to do is proved by induction on its life. The stage of a message says which
states of its worker and of its strand go together; the worker leads from one stage to the next, and
the strand never leaves the stage. -/

namespace StreamDispatch

open Occurrence (deeds)

/-- One strand follows on another. A strand that is there stays there, and a handler that has
returned has done so for good. -/
structure Strand.Advances (a b : Strand) : Prop where
  before : a ≠ .absent
  after : b ≠ .absent
  returned : a.hasReturned = true → b.hasReturned = true
  /-- Nothing follows on a strand that has ended. -/
  ongoing : ∀ abnormal, a ≠ .ended abnormal

namespace Run

/-- Neither task of a message can take a step: it waits for the clock, or for nothing any more. -/
def Settled (s : Site) (r : Run) : Prop := r.stepWorker s = none ∧ r.stepStrand s = none

/-- The states that a message can come to at a site, with its deeds so far. On a timely host the
clock waits for all work that is due. -/
inductive Life (timely : Bool) : Site → Run → List Occurrence → Prop
  | new (s : Site) (e : Event) : Life timely s (Run.new e) []
  | worker {s : Site} {r r' : Run} {os os' : List Occurrence} (life : Life timely s r os)
      (step : WorkerStep s r r' os') : Life timely s r' (os ++ os')
  | strand {s : Site} {r r' : Run} {os os' : List Occurrence} (life : Life timely s r os)
      (step : StrandStep s r r' os') : Life timely s r' (os ++ os')
  | tick {s : Site} {r : Run} {os : List Occurrence} (life : Life timely s r os)
      (settled : timely = true → r.Settled s) : Life timely { s with now := s.now + 1 } r os

/-! ## Stages -/

/-- A delivery brings a report of a message to the sink. -/
structure Delivers (s : Site) (d : Delivery) (report : PoisonReport) : Prop where
  report_eq : d.report = report
  result_eq : d.result = s.dispatcher.sink.result s.ticket report

/-- How far the worker of a message has come, and what that says of the strand. -/
inductive Stage (s : Site) (r : Run) : Prop
  | untouched (hw : r.worker = .ready) (hh : r.handler = none) (hs : r.strand = .absent)
      (ht : r.timedOut = false)
  /-- The event is dispatched to no handler, and that is being reported. -/
  | failing {text : String} {d : Delivery} (ha : s.assigned r.event = .error text)
      (hs : r.strand = .absent) (ht : r.timedOut = false) (hw : r.worker = .reportingFailure d)
      (hd : Delivers s d (s.errorReport r.event text))
  | failed {text : String} (ha : s.assigned r.event = .error text) (hs : r.strand = .absent)
      (ht : r.timedOut = false) (hw : r.worker.isUnfinished = false)
  | racing {h : Handler} {deadline : Nat} (ha : s.assigned r.event = .ok h)
      (hh : r.handler = some h) (hs : r.strand ≠ .absent) (ht : r.timedOut = false)
      (hw : r.worker = .racing deadline)
  /-- The handler has returned in time. -/
  | joining {h : Handler} (ha : s.assigned r.event = .ok h) (hh : r.handler = some h)
      (hs : r.strand.hasReturned = true) (ht : r.timedOut = false) (hw : r.worker = .joining)
  | inTime {h : Handler} {abnormal : Bool} (ha : s.assigned r.event = .ok h)
      (hh : r.handler = some h) (hs : r.strand = .ended abnormal) (ht : r.timedOut = false)
      (hw : r.worker.isUnfinished = false)
  /-- The timeout has passed first, and that is being reported. -/
  | reportingTimeout {h : Handler} {d : Delivery} (ha : s.assigned r.event = .ok h)
      (hh : r.handler = some h) (hs : r.strand ≠ .absent) (ht : r.timedOut = true)
      (hw : r.worker = .reportingTimeout d) (hd : Delivers s d (s.timeoutReport r.event h))
  /-- The sink broke off when it was to take the report of the timeout. -/
  | reportingLoss {h : Handler} {d : Delivery} {message : String}
      (ha : s.assigned r.event = .ok h) (hh : r.handler = some h) (hs : r.strand ≠ .absent)
      (ht : r.timedOut = true) (hw : r.worker = .reportingFailure d)
      (hd : s.dispatcher.sink.result s.ticket (s.timeoutReport r.event h) = .brokeOff message)
  | late {h : Handler} (ha : s.assigned r.event = .ok h) (hh : r.handler = some h)
      (hs : r.strand ≠ .absent) (ht : r.timedOut = true) (hw : r.worker.isUnfinished = false)

variable {timely : Bool} {s : Site} {r r' : Run} {os os' : List Occurrence}

theorem Stage.handler_eq_none (hr : Stage s r) (hw : r.worker = .ready) : r.handler = none := by
  cases hr with
  | untouched _ hh => exact hh
  | _ => simp_all [Worker.isUnfinished]

theorem Stage.racing_of (hr : Stage s r) {deadline : Nat} (hw : r.worker = .racing deadline) :
    r.timedOut = false ∧ r.strand ≠ .absent ∧
      ∃ h, s.assigned r.event = .ok h ∧ r.handler = some h := by
  cases hr with
  | racing ha hh hs ht => exact ⟨ht, hs, _, ha, hh⟩
  | _ => simp_all [Worker.isUnfinished]

/-- At every stage a step that the worker takes is one of those that are listed. -/
theorem Stage.step_worker (hr : Stage s r) (h : r.stepWorker s = some (r', os)) :
    WorkerStep s r r' (deeds os) := by
  refine Run.step_worker hr.handler_eq_none ?_ h
  intro deadline hw
  obtain ⟨-, -, handler, -, hh⟩ := hr.racing_of hw
  exact ⟨handler, hh⟩

/-- A step of the worker leads from one stage to the next. -/
theorem Stage.worker (hr : Stage s r) (h : WorkerStep s r r' os) : Stage s r' := by
  cases h with
  | failed handler hw ha =>
    cases hr with
    | untouched _ _ hs ht => exact .failing ha hs ht rfl ⟨rfl, rfl⟩
    | _ => simp_all [Worker.isUnfinished]
  | launched hw ha =>
    cases hr with
    | untouched _ _ hs ht => exact .racing ha rfl nofun ht rfl
    | _ => simp_all [Worker.isUnfinished]
  | won hw hs =>
    obtain ⟨ht, -, h, ha, hh⟩ := hr.racing_of hw
    exact .joining ha hh hs ht rfl
  | timedOut hw hs hd hh =>
    obtain ⟨-, hstrand, h, ha, hh'⟩ := hr.racing_of hw
    obtain rfl : h = _ := Option.some.inj (hh'.symm.trans hh)
    exact .reportingTimeout ha hh hstrand rfl rfl ⟨rfl, rfl⟩
  | joined hw hs =>
    cases hr with
    | joining ha hh _ ht => exact .inTime ha hh hs ht rfl
    | _ => simp_all [Worker.isUnfinished]
  | timeoutReported hw hd hr' =>
    cases hr with
    | reportingTimeout ha hh hs ht => exact .late ha hh hs ht rfl
    | _ => simp_all [Worker.isUnfinished]
  | timeoutLost hw hd hr' =>
    cases hr with
    | reportingTimeout ha hh hs ht hw' hd' =>
      obtain rfl := Worker.reportingTimeout.inj (hw.symm.trans hw')
      exact .reportingLoss ha hh hs ht rfl (hd'.result_eq.symm.trans hr')
    | _ => simp_all [Worker.isUnfinished]
  | failureReported abnormal hw hd =>
    cases hr with
    | failing ha hs ht => exact .failed ha hs ht rfl
    | reportingLoss ha hh hs ht => exact .late ha hh hs ht rfl
    | _ => simp_all [Worker.isUnfinished]
  | noted hw =>
    cases hr with
    | failed ha hs ht => exact .failed ha hs ht rfl
    | inTime ha hh hs ht => exact .inTime ha hh hs ht rfl
    | late ha hh hs ht => exact .late ha hh hs ht rfl
    | _ => simp_all

/-- A step of the strand is a step of a strand that was there, and changes nothing else. -/
theorem StrandStep.advances (h : StrandStep s r r' os) :
    ∃ strand, r' = { r with strand } ∧ Strand.Advances r.strand strand := by
  cases h with
  | called hs | calledUnknown hs | completed hs | faulted hs | unknownReported hs
  | unknownLost hs | faultReported _ hs =>
    exact ⟨_, rfl, by simp [hs], nofun, by simp [hs, Strand.hasReturned], by simp [hs]⟩

/-- A step of the strand keeps the stage. -/
theorem Stage.strand (hr : Stage s r) (h : StrandStep s r r' os) : Stage s r' := by
  obtain ⟨strand, rfl, hbefore, hafter, hreturned, hended⟩ := h.advances
  cases hr with
  | untouched _ _ hs => exact absurd hs hbefore
  | failing _ hs => exact absurd hs hbefore
  | failed _ hs => exact absurd hs hbefore
  | racing ha hh _ ht hw => exact .racing ha hh hafter ht hw
  | joining ha hh hs ht hw => exact .joining ha hh (hreturned hs) ht hw
  | inTime ha hh hs ht hw => exact absurd hs (hended _)
  | reportingTimeout ha hh _ ht hw hd => exact .reportingTimeout ha hh hafter ht hw hd
  | reportingLoss ha hh _ ht hw hd => exact .reportingLoss ha hh hafter ht hw hd
  | late ha hh _ ht hw => exact .late ha hh hafter ht hw

/-- The clock has no part in the stage. -/
theorem Stage.at_time (hr : Stage s r) (now : Nat) : Stage { s with now } r := by
  cases hr with
  | untouched hw hh hs ht => exact .untouched hw hh hs ht
  | failing ha hs ht hw hd => exact .failing ha hs ht hw ⟨hd.report_eq, hd.result_eq⟩
  | failed ha hs ht hw => exact .failed ha hs ht hw
  | racing ha hh hs ht hw => exact .racing ha hh hs ht hw
  | joining ha hh hs ht hw => exact .joining ha hh hs ht hw
  | inTime ha hh hs ht hw => exact .inTime ha hh hs ht hw
  | reportingTimeout ha hh hs ht hw hd =>
    exact .reportingTimeout ha hh hs ht hw ⟨hd.report_eq, hd.result_eq⟩
  | reportingLoss ha hh hs ht hw hd => exact .reportingLoss ha hh hs ht hw hd
  | late ha hh hs ht hw => exact .late ha hh hs ht hw

/-- Every message is at one of the stages at every time. -/
theorem Life.stage (h : Life timely s r os) : Stage s r := by
  induction h with
  | new s e => exact .untouched rfl rfl rfl rfl
  | worker _ step ih => exact ih.worker step
  | strand _ step ih => exact ih.strand step
  | tick _ _ ih => exact ih.at_time _

/-- A strand belongs to the handler that the event is dispatched to. -/
theorem Stage.assigned_of_strand (hr : Stage s r) (hs : r.strand ≠ .absent) :
    ∃ h, s.assigned r.event = .ok h ∧ r.handler = some h := by
  cases hr with
  | untouched _ _ hs' => exact absurd hs' hs
  | failing _ hs' => exact absurd hs' hs
  | failed _ hs' => exact absurd hs' hs
  | racing ha hh => exact ⟨_, ha, hh⟩
  | joining ha hh => exact ⟨_, ha, hh⟩
  | inTime ha hh => exact ⟨_, ha, hh⟩
  | reportingTimeout ha hh => exact ⟨_, ha, hh⟩
  | reportingLoss ha hh => exact ⟨_, ha, hh⟩
  | late ha hh => exact ⟨_, ha, hh⟩

/-- A message whose worker has ended is left running only if it timed out. -/
theorem Stage.timedOut_of_finished (hr : Stage s r) (hw : r.worker.isUnfinished = false)
    (hs : r.strand.isInFlight = true) : r.timedOut = true := by
  cases hr with
  | late _ _ _ ht => exact ht
  | _ => simp_all [Worker.isUnfinished, Strand.isInFlight]

/-- A handler at work that has not timed out is waited for. -/
theorem Stage.racing_of_inFlight (hr : Stage s r) (hs : r.strand.isInFlight = true)
    (ht : r.timedOut = false) : ∃ deadline, r.worker = .racing deadline := by
  cases hr with
  | racing _ _ _ _ hw => exact ⟨_, hw⟩
  | joining _ _ hs' => cases hstrand : r.strand <;> simp_all [Strand.isInFlight, Strand.hasReturned]
  | _ => simp_all [Strand.isInFlight]

/-! ## The strand does what the handler does -/

/-- How far the handler of an event has come, and what has come of it. -/
def StrandFits (s : Site) (e : Event) (h : Handler) : Strand → Prop
  | .absent | .ready => True
  | .working due outcome => h.behavior ≠ .reportsUnknown ∧
      due.isSome = (s.performance e h).1.isSome ∧ outcome = (s.performance e h).2
  | .reportingUnknown d => h.behavior = .reportsUnknown ∧ Delivers s d (s.unknownReport e)
  | .reportingFault d => (s.performance e h).1.isSome = true ∧
      ∃ text, (s.performance e h).2.fault? = some text ∧ d.report = s.errorReport e text
  | .ended _ => (s.performance e h).1.isSome = true

/-- A handler at work that is to return at some tick has been given some work. -/
theorem StrandFits.exists_work {h : Handler} (hr : StrandFits s r.event h r.strand)
    (hs : r.strand.isInFlight = true) {due : Nat} (hd : r.strandDue? = some due) :
    ∃ work, (s.performance r.event h).1 = some work := by
  cases hstrand : r.strand with
  | working due outcome =>
    rw [hstrand] at hr
    simp only [strandDue?, hstrand] at hd
    exact Option.isSome_iff_exists.mp (hr.2.1.symm.trans (by simp [hd]))
  | reportingUnknown d =>
    rw [hstrand] at hr
    refine ⟨s.dispatcher.sink.delay s.ticket (s.unknownReport r.event), ?_⟩
    simp only [Site.performance, hr.1]
  | absent | ready => simp [strandDue?, hstrand] at hd
  | reportingFault d => simp [hstrand, Strand.isInFlight] at hs
  | ended abnormal => simp [hstrand, Strand.isInFlight] at hs

theorem WorkerStep.event_eq (h : WorkerStep s r r' os) : r'.event = r.event := by
  cases h <;> rfl

/-- The strand is the same after a step of the worker, or it has only just come to be. -/
theorem WorkerStep.strand_eq (h : WorkerStep s r r' os) :
    r'.strand = r.strand ∨ r.worker = .ready ∧ r'.strand = .ready := by
  cases h with
  | launched hw => exact .inr ⟨hw, rfl⟩
  | _ => exact .inl rfl

/-- No step is taken by a worker of which the batch has taken note. -/
theorem WorkerStep.ne_joined (h : WorkerStep s r r' os) : r.worker ≠ .joined := by
  cases h with
  | failed _ hw | launched hw | won hw | timedOut hw | joined hw | timeoutReported hw
  | timeoutLost hw | failureReported _ hw | noted hw => simp [hw]

theorem StrandFits.step {h : Handler} (hr : StrandFits s r.event h r.strand)
    (ha : r.strand ≠ .absent → r.handler = some h) (hstep : StrandStep s r r' os) :
    StrandFits s r'.event h r'.strand := by
  have hchosen {h' : Handler} (hs : r.strand = .ready) (hh : r.handler = some h') : h' = h :=
    Option.some.inj (hh.symm.trans (ha (by simp [hs])))
  cases hstep with
  | called hs hh hb =>
    obtain rfl := hchosen hs hh
    exact ⟨by simp [hb], by simp, rfl⟩
  | calledUnknown hs hh hb =>
    obtain rfl := hchosen hs hh
    exact ⟨hb, rfl, rfl⟩
  | completed hs hd ho =>
    rw [hs] at hr
    exact hr.2.1.symm
  | faulted hs hd ho =>
    rw [hs] at hr
    obtain ⟨-, hdue, houtcome⟩ := hr
    exact ⟨hdue.symm, _, houtcome ▸ ho, rfl⟩
  | unknownReported hs hd hr' =>
    rw [hs] at hr
    simp only [StrandFits, Site.performance, hr.1, Option.isSome_some]
  | unknownLost hs hd hr' ho =>
    rw [hs] at hr
    obtain ⟨hb, hdelivers⟩ := hr
    -- How the handler ends is what the sink makes of its report.
    have hresult := hdelivers.result_eq.symm.trans hr'
    simp only [StrandFits, Site.performance, hb, hresult, Option.isSome_some, true_and]
    exact ⟨_, ho, rfl⟩
  | faultReported abnormal hs hd =>
    rw [hs] at hr
    exact hr.1

/-- Throughout its life a message shows in its strand what its handler does. -/
theorem Life.strandFits (hl : Life timely s r os) {h : Handler}
    (ha : s.assigned r.event = .ok h) : StrandFits s r.event h r.strand := by
  induction hl with
  | new s e => trivial
  | @worker s r r' os os' life step ih =>
    -- A worker leaves the strand as it is, or sets it off.
    have hr := ih (step.event_eq ▸ ha)
    rw [step.event_eq]
    rcases step.strand_eq with hs | ⟨-, hs⟩
    · rwa [hs]
    · rw [hs]
      trivial
  | @strand s r r' os os' life step ih =>
    have hevent : r'.event = r.event := by
      obtain ⟨strand, rfl, -⟩ := step.advances
      rfl
    rw [hevent] at ha
    refine (ih ha).step ?_ step
    intro hs
    obtain ⟨h', ha', hh⟩ := life.stage.assigned_of_strand hs
    rw [hh, Except.ok.inj (ha'.symm.trans ha)]
  | @tick s r os life settled ih =>
    have hr := ih ha
    generalize r.strand = strand at hr ⊢
    cases strand with
    | absent | ready => trivial
    | working due outcome => exact hr
    | reportingUnknown d => exact ⟨hr.1, hr.2.report_eq, hr.2.result_eq⟩
    | reportingFault d => exact hr
    | ended abnormal => exact hr

end Run

end StreamDispatch
