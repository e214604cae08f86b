import Mathlib.Data.List.Perm.Basic
import StreamDispatch.Proofs.Dispatch.Life

set_option autoImplicit false

/-! # The history of a message

What the deeds of a message say of its reports and calls. Every report that was offered to the sink
has been handed over or is under way. The reports that have been handed over follow from the state
of the message, and those of a message whose tasks have ended are the ones that are owed to it. -/

namespace StreamDispatch

namespace Occurrence

/-- The report that has been handed over. -/
def reported? : Occurrence → Option PoisonReport
  | .reported r => some r
  | _ => none

/-- The report that the sink begins to take. -/
def offered? : Occurrence → Option PoisonReport
  | .offered r => some r
  | _ => none

/-- Whether a handler begins to work. -/
def isCall : Occurrence → Bool
  | .called .. => true
  | _ => false

/-- The outcome with which a handler has returned. -/
def returned? : Occurrence → Option Outcome
  | .returned outcome => some outcome
  | _ => none

/-- The outcomes with which handlers have returned, in order. -/
def returns (os : List Occurrence) : List Outcome := os.filterMap returned?

/-- The reports that have been handed over, in order. -/
def reports (os : List Occurrence) : List PoisonReport := os.filterMap reported?

/-- The reports that the sink has begun to take, in order. -/
def offers (os : List Occurrence) : List PoisonReport := os.filterMap offered?

/-- The calls of handlers, in order. -/
def calls (os : List Occurrence) : List Occurrence := os.filter isCall

end Occurrence

open Occurrence (reports offers calls returns)

section Simp

variable (os os' : List Occurrence)

@[simp] theorem reports_append : reports (os ++ os') = reports os ++ reports os' :=
  List.filterMap_append

@[simp] theorem offers_append : offers (os ++ os') = offers os ++ offers os' :=
  List.filterMap_append

@[simp] theorem calls_append : calls (os ++ os') = calls os ++ calls os' :=
  List.filter_append ..

@[simp] theorem returns_append : returns (os ++ os') = returns os ++ returns os' :=
  List.filterMap_append

@[simp] theorem reports_nil : reports [] = [] := rfl

@[simp] theorem offers_nil : offers [] = [] := rfl

@[simp] theorem calls_nil : calls [] = [] := rfl

@[simp] theorem reports_cons (o : Occurrence) :
    reports (o :: os) = o.reported?.toList ++ reports os := by
  cases o <;> rfl

@[simp] theorem offers_cons (o : Occurrence) :
    offers (o :: os) = o.offered?.toList ++ offers os := by
  cases o <;> rfl

@[simp] theorem calls_cons (o : Occurrence) :
    calls (o :: os) = if o.isCall then o :: calls os else calls os :=
  List.filter_cons

@[simp] theorem reports_leaving (o : Outcome) : reports (Occurrence.leaving o) = [] := rfl

@[simp] theorem offers_leaving (o : Outcome) : offers (Occurrence.leaving o) = [] := rfl

@[simp] theorem calls_leaving (o : Outcome) : calls (Occurrence.leaving o) = [] := rfl

end Simp

/-- The delivery that a worker waits for. -/
def Worker.delivery? : Worker → Option Delivery
  | .reportingTimeout d | .reportingFailure d => some d
  | _ => none

/-- The delivery that a strand waits for. -/
def Strand.delivery? : Strand → Option Delivery
  | .reportingUnknown d | .reportingFault d => some d
  | _ => none

/-- A sink that takes every report or refuses it with an error, but never breaks off. -/
def Sink.Returns (sink : Sink) : Prop :=
  ∀ ticket report message, sink.result ticket report ≠ .brokeOff message

namespace Run

variable {timely : Bool} {s : Site} {r r' : Run} {os os' : List Occurrence}

/-! ## Reports under way -/

/-- The reports of a message that the sink has begun to take and has not taken yet. -/
def underway (r : Run) : List PoisonReport :=
  (r.worker.delivery?.toList ++ r.strand.delivery?.toList).map (·.report)

theorem WorkerStep.count_offers (h : WorkerStep s r r' os) (hr : Stage s r)
    (report : PoisonReport) :
    (offers os).count report + r.underway.count report
      = (reports os).count report + r'.underway.count report := by
  cases h with
  | launched hw ha =>
    cases hr with
    | untouched _ _ hs =>
      simp [underway, hw, hs, Worker.delivery?, Strand.delivery?, Occurrence.offered?,
        Occurrence.reported?]
    | _ => simp_all [Worker.isUnfinished]
  | won hw | joined hw | noted hw => simp [underway, hw, Worker.delivery?]
  | failed _ hw | timedOut hw | timeoutReported hw | timeoutLost hw | failureReported _ hw =>
    simp [underway, hw, Worker.delivery?, Occurrence.offered?, Occurrence.reported?, Site.delivery,
      List.count_cons]
    omega

theorem StrandStep.count_offers (h : StrandStep s r r' os) (report : PoisonReport) :
    (offers os).count report + r.underway.count report
      = (reports os).count report + r'.underway.count report := by
  cases h with
  | called hs | completed hs =>
    simp [underway, hs, Strand.delivery?, Occurrence.offered?, Occurrence.reported?, Site.call]
  | calledUnknown hs | faulted hs | unknownReported hs | unknownLost hs | faultReported _ hs =>
    simp [underway, hs, Strand.delivery?, Occurrence.offered?, Occurrence.reported?, Site.delivery,
      Site.call, List.count_cons]
    omega

/-- Every report that has been offered to the sink has been handed over or is under way. -/
theorem Life.offers_perm (h : Life timely s r os) :
    (offers os).Perm (reports os ++ r.underway) := by
  -- Worker and strand hand over in any order, so the reports are counted one by one.
  rw [List.perm_iff_count]
  intro report
  rw [List.count_append]
  induction h with
  | new s e => rfl
  | worker life step ih =>
    have hstep := step.count_offers life.stage report
    simp only [offers_append, reports_append, List.count_append]
    omega
  | strand life step ih =>
    have hstep := step.count_offers report
    simp only [offers_append, reports_append, List.count_append]
    omega
  | tick _ _ ih => exact ih

/-! ## Reports that have been handed over -/

/-- The reports that the worker of a message has handed over, if the sink never breaks off. -/
def workerReports (s : Site) (r : Run) : List PoisonReport :=
  match s.assigned r.event with
  | .error text => if r.worker.isUnfinished then [] else [s.errorReport r.event text]
  | .ok h => if r.timedOut && !r.worker.isUnfinished then [s.timeoutReport r.event h] else []

/-- The reports that the strand of a message has handed over, if the sink never breaks off. -/
def strandReports (s : Site) (r : Run) : List PoisonReport :=
  match s.assigned r.event, r.strand with
  | .ok h, .reportingFault _ => s.ownReports r.event h
  | .ok h, .ended _ => s.returnReports r.event h
  | _, _ => []

theorem WorkerStep.strandReports_eq (h : WorkerStep s r r' os) (hr : Stage s r) :
    strandReports s r' = strandReports s r := by
  unfold strandReports
  rw [h.event_eq]
  rcases h.strand_eq with hs | ⟨hw, hs⟩
  · rw [hs]
  · cases hr with
    | untouched _ _ hs' =>
      rw [hs, hs']
      cases s.assigned r.event <;> rfl
    | _ => simp_all [Worker.isUnfinished]

theorem WorkerStep.count_reports (h : WorkerStep s r r' os) (hr : Stage s r)
    (hsink : s.dispatcher.sink.Returns) (report : PoisonReport) :
    (reports os).count report + (workerReports s r).count report
      = (workerReports s r').count report := by
  cases h with
  | failed handler hw ha => simp [workerReports, ha, hw, Worker.isUnfinished, Occurrence.reported?]
  | launched hw ha => simp [workerReports, ha, hw, Worker.isUnfinished, Occurrence.reported?]
  | won hw => simp [workerReports, hw, Worker.isUnfinished]
  | timedOut hw =>
    obtain ⟨ht, -, h, ha, -⟩ := hr.racing_of hw
    simp [workerReports, ha, ht, Worker.isUnfinished, Occurrence.reported?]
  | joined hw =>
    cases hr with
    | joining ha _ _ ht => simp [workerReports, ha, ht]
    | _ => simp_all [Worker.isUnfinished]
  | timeoutReported hw =>
    cases hr with
    | reportingTimeout ha _ _ ht hw' hd =>
      obtain rfl := Worker.reportingTimeout.inj (hw.symm.trans hw')
      simp [workerReports, ha, ht, hw, Worker.isUnfinished, Occurrence.reported?, hd.report_eq]
    | _ => simp_all [Worker.isUnfinished]
  | timeoutLost hw _ hr' =>
    cases hr with
    | reportingTimeout _ _ _ _ hw' hd =>
      -- A sink that returns loses no report.
      obtain rfl := Worker.reportingTimeout.inj (hw.symm.trans hw')
      exact absurd (hd.result_eq.symm.trans hr') (hsink _ _ _)
    | _ => simp_all [Worker.isUnfinished]
  | failureReported abnormal hw =>
    cases hr with
    | failing ha _ _ hw' hd =>
      obtain rfl := Worker.reportingFailure.inj (hw.symm.trans hw')
      simp [workerReports, ha, hw, Worker.isUnfinished, Occurrence.reported?, hd.report_eq]
    | reportingLoss _ _ _ _ _ hd => exact absurd hd (hsink _ _ _)
    | _ => simp_all [Worker.isUnfinished]
  | noted hw => simp [workerReports, hw, Worker.isUnfinished]

theorem StrandStep.workerReports_eq (h : StrandStep s r r' os) :
    workerReports s r' = workerReports s r := by
  obtain ⟨strand, rfl, -⟩ := h.advances
  rfl

theorem StrandStep.count_reports (h : StrandStep s r r' os) {handler : Handler}
    (ha : s.assigned r.event = .ok handler) (hr : StrandFits s r.event handler r.strand)
    (hsink : s.dispatcher.sink.Returns) (report : PoisonReport) :
    (reports os).count report + (strandReports s r).count report
      = (strandReports s r').count report := by
  cases h with
  | called hs | calledUnknown hs =>
    simp [strandReports, ha, hs, Occurrence.reported?, Site.call]
  | completed hs hd ho =>
    rw [hs] at hr
    obtain ⟨hb, -, houtcome⟩ := hr
    have hown : s.ownReports r.event handler = [] := by
      unfold Site.ownReports
      split
      · rfl
      · next hu => exact absurd hu hb
    simp [strandReports, ha, hs, Site.returnReports, hown, ← houtcome, ho]
  | faulted hs hd ho =>
    rw [hs] at hr
    have hown : s.ownReports r.event handler = [] := by
      unfold Site.ownReports
      split
      · rfl
      · next hu => exact absurd hu hr.1
    simp [strandReports, ha, hs, hown, Occurrence.reported?]
  | unknownReported hs hd hr' =>
    rw [hs] at hr
    obtain ⟨hb, hdelivers⟩ := hr
    have houtcome : (s.performance r.event handler).2 = .completed :=
      Site.performance_eq_completed hb (hsink _ _)
    simp [strandReports, ha, hs, Site.returnReports, Site.ownReports, hb, houtcome,
      Outcome.fault?, Occurrence.reported?, hdelivers.report_eq]
  | unknownLost hs hd hr' =>
    rw [hs] at hr
    exact absurd (hr.2.result_eq.symm.trans hr') (hsink _ _ _)
  | faultReported abnormal hs hd =>
    rw [hs] at hr
    obtain ⟨-, text, htext, hreport⟩ := hr
    simp [strandReports, ha, hs, Site.returnReports, htext, Occurrence.reported?, hreport]
    omega

/-- What has been handed over of a message follows from its state, if the sink never breaks off. -/
theorem Life.reports_perm (h : Life timely s r os) (hsink : s.dispatcher.sink.Returns) :
    (reports os).Perm (strandReports s r ++ workerReports s r) := by
  rw [List.perm_iff_count]
  intro report
  rw [List.count_append]
  induction h with
  | new s e =>
    cases ha : s.assigned e with
    | error text => simp [strandReports, workerReports, Run.new, ha, Worker.isUnfinished]
    | ok handler => simp [strandReports, workerReports, Run.new, ha]
  | worker life step ih =>
    have hstep := step.count_reports life.stage hsink report
    rw [reports_append, List.count_append, step.strandReports_eq life.stage, ih hsink, ← hstep]
    omega
  | strand life step ih =>
    obtain ⟨strand, -, hs⟩ := step.advances
    obtain ⟨handler, ha, -⟩ := life.stage.assigned_of_strand hs.before
    have hstep := step.count_reports ha (life.strandFits ha) hsink report
    rw [reports_append, List.count_append, step.workerReports_eq, ih hsink, ← hstep]
    omega
  | tick _ _ ih => exact ih hsink

/-! ## Calls -/

theorem WorkerStep.calls_eq_nil (h : WorkerStep s r r' os) : calls os = [] := by
  cases h <;> rfl

/-- Without a handler nothing is called. -/
theorem Life.calls_eq_nil (hl : Life timely s r os) {text : String}
    (ha : s.assigned r.event = .error text) : calls os = [] := by
  induction hl with
  | new s e => rfl
  | worker life step ih =>
    rw [step.event_eq] at ha
    rw [calls_append, ih ha, step.calls_eq_nil, List.append_nil]
  | strand life step ih =>
    obtain ⟨strand, rfl, hs⟩ := step.advances
    obtain ⟨handler, ha', -⟩ := life.stage.assigned_of_strand hs.before
    cases ha'.symm.trans ha
  | tick _ _ ih => exact ih ha

/-! ## Returns -/

theorem WorkerStep.returns_eq_nil (h : WorkerStep s r r' os) : returns os = [] := by
  cases h <;> rfl

/-- What a strand that has come so far has returned. -/
def strandReturns (s : Site) (e : Event) (h : Handler) (strand : Strand) : List Outcome :=
  if strand.hasReturned then [(s.performance e h).2] else []

theorem StrandStep.returns_eq (h : StrandStep s r r' os) {handler : Handler}
    (hr : StrandFits s r.event handler r.strand) :
    strandReturns s r.event handler r.strand ++ returns os
      = strandReturns s r'.event handler r'.strand := by
  cases h with
  | called hs hh hb | calledUnknown hs hh hb =>
    simp only [hs]
    rfl
  | completed hs | faulted hs =>
    rw [hs] at hr
    simp only [hs, strandReturns, ← hr.2.2]
    rfl
  | unknownReported hs _ hr' =>
    rw [hs] at hr
    have houtcome : (s.performance r.event handler).2 = .completed :=
      Site.performance_eq_completed hr.1 fun message => hr.2.result_eq ▸ hr' message
    simp only [hs, strandReturns, houtcome]
    rfl
  | @unknownLost d message _ hs _ hr' =>
    rw [hs] at hr
    have hresult := hr.2.result_eq.symm.trans hr'
    have houtcome : (s.performance r.event handler).2 = .brokeOff (some message) := by
      simp only [Site.performance, hr.1, hresult]
    simp only [hs, strandReturns, houtcome]
    rfl
  | faultReported _ hs =>
    simp only [hs]
    rfl

/-- A handler returns at most once, with the outcome of its performance. -/
theorem Life.returns_eq (hl : Life timely s r os) {h : Handler} (ha : s.assigned r.event = .ok h) :
    returns os = strandReturns s r.event h r.strand := by
  induction hl with
  | new s e => rfl
  | worker life step ih =>
    rw [step.event_eq] at ha ⊢
    rw [returns_append, ih ha, step.returns_eq_nil, List.append_nil]
    rcases step.strand_eq with hs | ⟨hw, hs⟩
    · rw [hs]
    · cases life.stage with
      | untouched _ _ hs' =>
        rw [hs, hs']
        rfl
      | _ => simp_all [Worker.isUnfinished]
  | strand life step ih =>
    obtain ⟨strand, rfl, hs⟩ := step.advances
    rw [returns_append, ih ha, step.returns_eq (life.strandFits ha)]
  | tick _ _ ih => exact ih ha

end Run

end StreamDispatch
