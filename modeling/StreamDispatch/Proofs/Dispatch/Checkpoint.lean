import Mathlib.Algebra.Order.BigOperators.Group.List
import Mathlib.Algebra.Order.Group.Nat
import StreamDispatch.Proofs.Dispatch.Reports
import StreamDispatch.Proofs.Dispatch.Schedule
import StreamDispatch.Proofs.Dispatch.Tally

set_option autoImplicit false

/-! # Checkpoints

A batch that is admitted asks for exactly one checkpoint, after the last of its workers has ended,
and one that is refused leaves no trace. At the checkpoint only handlers that exceeded their timeout
are still at work, and everything has been handed over to the sink but what they report themselves:
their faults, and reports of unknown types for which the sink takes longer than the timeout. -/

namespace StreamDispatch

open Occurrence (rise offers reports deeds)

namespace Host

variable {h h' h₁ : Host} {timely : Bool} {d : Dispatcher} {i : Instrumentation} {σ : Nat → Host}
  {partition : String} {events : Option (List Event)} {cancelled : Bool}

/-! ## One checkpoint for each batch -/

/-- A batch itself never changes a level or a counter. -/
theorem step_batch_eq {n : Nat} (hstep : h.step (.batch n) = some h') :
    h'.instrumentation = h.instrumentation ∧ ∀ lease, h'.level lease = h.level lease := by
  have hc : Change false h h' (.batch n) := change_stepBatch hstep
  cases hc with
  | @batch _ b b' l os _ step _ _ _ shows =>
    have hrise : rise os = 0 := by cases step <;> rfl
    have hrecord : os.foldl Instrumentation.record h.instrumentation = h.instrumentation := by
      cases step <;> rfl
    exact ⟨shows.instrumentation_eq.trans hrecord, fun lease => by simp [shows.level_eq, hrise]⟩

/-- Nothing at all has been done for a batch that has not been admitted. -/
theorem Sound.untouched (hs : Sound timely h) {n : Nat} {b : Batch}
    (hb : h.batches[n]? = some b) (ha : b.phase.isAdmitted = false) :
    h.deeds (.batch n) = [] ∧ ∀ j, h.deeds (.message ⟨n, j⟩) = [] := by
  have hruns := (hs.orderly n b hb).unadmitted ha
  refine ⟨?_, fun j => hs.noMessage _ ?_⟩
  · rw [hs.history n b hb, Batch.history_eq (Batch.Phase.isDone_of_not_admitted ha), hruns]
    rfl
  · rw [run?_of_batch hb, hruns]
    rfl

/-- When a batch asks for its checkpoint, it has taken note of the end of every worker. -/
theorem joined_of_checkpoint {n : Nat} {b : Batch} (hb : h.batches[n]? = some b)
    (hstep : h.step (.batch n) = some h')
    (hcheck : h'.deeds (.batch n) = h.deeds (.batch n) ++ [.checkpointed]) :
    ∀ r ∈ b.runs, r.worker = .joined := by
  have hc : Change false h h' (.batch n) := change_stepBatch hstep
  cases hc with
  | @batch _ b₁ b' l os hb₁ step _ _ _ shows =>
    obtain rfl := Option.some.inj (hb₁.symm.trans hb)
    have hdeeds := shows.deeds_eq (.batch n)
    rw [hcheck, if_pos rfl] at hdeeds
    obtain rfl : [Occurrence.checkpointed] = os := List.append_cancel_left hdeeds
    cases step with
    | finished _ hw => exact hw

end Host

namespace Run

variable {s : Site} {r r' : Run} {os : List Occurrence} {timely : Bool}

/-- A message whose worker has ended in time has nothing left to do. -/
theorem Stage.done_of_joined (hr : Stage s r) (hw : r.worker = .joined)
    (ht : r.timedOut = false) : r.strand.isDone = true ∧ r.underway = [] := by
  cases hr with
  | failed _ hs => simp [hs, hw, Strand.isDone, underway, Worker.delivery?, Strand.delivery?]
  | inTime _ _ hs => simp [hs, hw, Strand.isDone, underway, Worker.delivery?, Strand.delivery?]
  | _ => simp_all

/-- What is under way after the end of the worker is reported because of the handler. -/
theorem StrandFits.mem_returnReports {h : Handler} (hr : StrandFits s r.event h r.strand)
    (hw : r.worker = .joined) {report : PoisonReport} (hreport : report ∈ r.underway) :
    report ∈ s.returnReports r.event h := by
  cases hs : r.strand with
  | reportingUnknown d =>
    rw [hs] at hr
    obtain ⟨hb, hd⟩ := hr
    simp only [underway, hw, hs, Worker.delivery?, Strand.delivery?] at hreport
    simp_all [Site.returnReports, Site.ownReports, hd.report_eq]
  | reportingFault d =>
    rw [hs] at hr
    obtain ⟨-, text, htext, hd⟩ := hr
    simp only [underway, hw, hs, Worker.delivery?, Strand.delivery?] at hreport
    simp_all [Site.returnReports]
  | absent | ready | working | ended =>
    simp [underway, hw, hs, Worker.delivery?, Strand.delivery?] at hreport

/-- What a strand offers to the sink is reported because of its handler. -/
theorem StrandStep.offers_mem {h : Handler} (step : StrandStep s r r' os)
    (hh : r.handler = some h) (hr : StrandFits s r.event h r.strand) :
    ∀ report ∈ Occurrence.offers os, report ∈ s.returnReports r.event h := by
  cases step with
  | calledUnknown hs hh' hb =>
    obtain rfl := Option.some.inj (hh.symm.trans hh')
    simp [Occurrence.offered?, Site.call, Site.returnReports, Site.ownReports, hb]
  | faulted hs hd ho =>
    rw [hs] at hr
    obtain ⟨-, -, houtcome⟩ := hr
    simp [Occurrence.offered?, Site.returnReports, ← houtcome, ho]
  | unknownLost hs hd hr' ho =>
    rw [hs] at hr
    have hresult := hr.2.result_eq.symm.trans hr'
    simp [Occurrence.offered?, Site.returnReports, Site.performance, hr.1, hresult, ho]
  | called | completed | unknownReported | faultReported =>
    simp [Occurrence.offered?, Site.call]

/-- What a strand offers to the sink after its worker has ended is the report of a fault. On a
timely host a handler of unknown types has been called by then, since its timeout is not zero. -/
theorem Life.offers_of_joined (hl : Life timely s r os) (hw : r.worker = .joined)
    {os' : List Occurrence} (h : StrandStep s r r' os') : ∀ report ∈ Occurrence.offers os',
      report.mode = .error ∨ timely = false ∧ report.mode = .unknownPayload := by
  cases h with
  | @calledUnknown handler hs hh hb =>
    cases timely with
    | false => simp [Occurrence.offered?, Site.call, Site.unknownReport, Site.report]
    | true =>
      -- A strand that is called after its worker has ended was called after its timeout.
      obtain ⟨handler', ha, hh'⟩ := hl.stage.assigned_of_strand (by simp [hs])
      obtain rfl : handler' = handler := Option.some.inj (hh'.symm.trans hh)
      have ht : r.timedOut = true := hl.stage.timedOut_of_finished
        (by simp [hw, Worker.isUnfinished]) (by simp [hs, Strand.isInFlight])
      have hzero := (hl.onTime ha).calledLate ht hs
      have hpatient := handler'.patient hb
      omega
  | called | completed | faulted | unknownReported | unknownLost | faultReported =>
    simp [Occurrence.offered?, Site.call, Site.errorReport, Site.report]

/-- A message for which something is under way after the end of its worker has a handler, and it is
reported because of that. -/
theorem Life.underway_of_joined (hl : Life timely s r os) (hw : r.worker = .joined)
    {report : PoisonReport} (hreport : report ∈ r.underway) :
    ∃ handler, s.assigned r.event = .ok handler ∧ report ∈ s.returnReports r.event handler := by
  have hstrand : r.strand ≠ .absent := by
    intro hs
    simp [underway, hw, hs, Worker.delivery?, Strand.delivery?] at hreport
  obtain ⟨handler, ha, -⟩ := hl.stage.assigned_of_strand hstrand
  exact ⟨handler, ha, (hl.strandFits ha).mem_returnReports hw hreport⟩

/-- On a timely host the report of an unknown type is under way after the timeout of its handler
only if the sink takes at least as long for it. -/
theorem Life.timeout_le_delay (hl : Life true s r os) {handler : Handler}
    (ha : s.assigned r.event = .ok handler) (hb : handler.behavior = .reportsUnknown)
    (ht : r.timedOut = true) : handler.timeout.ticks
      ≤ (s.dispatcher.sink.delay s.ticket (s.unknownReport r.event)).ticks :=
  (hl.onTime ha).late ht _ (by simp [Site.performance, hb])

end Run

/-- What is reported because of a handler is a fault, or the report of an unknown type. -/
theorem Site.returnReports_cases {s : Site} {e : Event} {h : Handler} {report : PoisonReport}
    (hreport : report ∈ s.returnReports e h) :
    report.mode = .error ∨ h.behavior = .reportsUnknown ∧ report = s.unknownReport e := by
  rcases List.mem_append.mp hreport with hown | hfault
  · unfold ownReports at hown
    split at hown
    · cases hown
    · next hb => exact .inr ⟨hb, List.mem_singleton.mp hown⟩
  · obtain ⟨text, -, rfl⟩ := Option.map_eq_some_iff.mp (Option.mem_toList.mp hfault)
    exact .inl rfl

namespace Host

variable {h h' h₁ h₂ h₃ h₄ : Host} {timely : Bool} {d : Dispatcher} {i : Instrumentation}
  {partition : String} {events : Option (List Event)} {cancelled : Bool}

/-- After the end of its worker a message offers nothing to the sink but what is reported because of
its handler, and on a timely host nothing but faults. -/
theorem Sound.later_offers (hs : Sound timely h) (hreach : Reaches timely h h') {t : Ticket}
    {r : Run} (hr : h.run? t = some r) (hw : r.worker = .joined) :
    ∃ r' later, h'.run? t = some r' ∧ r'.event = r.event ∧ r'.worker = .joined
      ∧ h'.deeds (.message t) = h.deeds (.message t) ++ later
      ∧ ∀ report ∈ offers later,
        (report.mode = .error ∨ timely = false ∧ report.mode = .unknownPayload)
          ∧ ∃ handler, (h.site t).assigned r.event = .ok handler
            ∧ report ∈ (h.site t).returnReports r.event handler := by
  induction hreach with
  | refl => exact ⟨r, [], hr, rfl, hw, by simp, by simp⟩
  | tail hreach hmoves ih =>
    obtain ⟨r₁, later, hr₁, hevent₁, hw₁, hdeeds₁, hlater⟩ := ih
    have hs₁ := hs.reaches hreach
    obtain ⟨place, hc⟩ := hs₁.change hmoves
    obtain ⟨r₂, os, hr₂, hcases, hdeeds⟩ := hc.run_cases hr₁
    rw [hdeeds₁, List.append_assoc] at hdeeds
    cases hcases with
    | kept | tick => exact ⟨r₁, later ++ [], hr₂, hevent₁, hw₁, hdeeds, by simpa using hlater⟩
    | worker _ step => exact absurd hw₁ step.ne_joined
    | strand _ step =>
      have hlife := hs₁.life t r₁ hr₁
      have hmode := hlife.offers_of_joined hw₁ step
      obtain ⟨strand, rfl, hadvances⟩ := step.advances
      obtain ⟨handler, ha, hh⟩ := hlife.stage.assigned_of_strand hadvances.before
      have hmem := step.offers_mem hh (hlife.strandFits ha)
      -- The site is still the same, but for its clock, of which reports know nothing.
      obtain ⟨b, hb, -⟩ := run?_eq_some.mp hr
      rw [hs.site_reaches hreach hb, hevent₁] at ha hmem
      refine ⟨_, later ++ os, hr₂, hevent₁, hw₁, hdeeds, ?_⟩
      intro report hreport
      rw [offers_append] at hreport
      rcases List.mem_append.mp hreport with hreport | hreport
      · exact hlater report hreport
      · exact ⟨hmode report hreport, handler, ha, hmem report hreport⟩

/-- What is handed over later was under way before, or is offered later. -/
theorem Sound.later_reports (hs : Sound timely h) (hs' : Sound timely h') {t : Ticket} {r r' : Run}
    (hr : h.run? t = some r) (hr' : h'.run? t = some r') {later : List Occurrence}
    (hdeeds : h'.deeds (.message t) = h.deeds (.message t) ++ later) {report : PoisonReport}
    (hreport : report ∈ reports later) : report ∈ r.underway ∨ report ∈ offers later := by
  -- Offered is what has been handed over or is under way, both before and after.
  have hbefore := (hs.life t r hr).offers_perm.count_eq report
  have hafter := (hs'.life t r' hr').offers_perm.count_eq report
  rw [hdeeds, offers_append, reports_append] at hafter
  simp only [List.count_append] at hbefore hafter
  have hpos := List.count_pos_iff.mpr hreport
  rw [← List.count_pos_iff, ← List.count_pos_iff (l := offers later)]
  omega

/-- The state of a message at the checkpoint of its batch. -/
structure AtCheckpoint (s : Site) (r : Run) (os : List Occurrence) : Prop where
  /-- An event that was dispatched to no handler has been reported. -/
  unassigned : ∀ text, s.assigned r.event = .error text →
    r.timedOut = false ∧ reports os = [s.errorReport r.event text]
  /-- A handler that has returned in time is done, and its reports have been handed over. -/
  inTime : ∀ handler, s.assigned r.event = .ok handler → r.timedOut = false →
    r.strand.hasReturned = true ∧ (reports os).Perm (s.returnReports r.event handler)
  /-- A handler that was too late has been reported for that, and only what it reports itself may be
  under way. -/
  late : ∀ handler, s.assigned r.event = .ok handler → r.timedOut = true →
    s.timeoutReport r.event handler ∈ reports os
      ∧ ∀ report ∈ r.underway, report ∈ s.returnReports r.event handler
  /-- Otherwise nothing is under way. -/
  settled : r.timedOut = false → r.underway = [] ∧ (offers os).Perm (reports os)

/-- What comes of a message after the checkpoint of its batch, before which it had done some
deeds. -/
structure AfterCheckpoint (timely : Bool) (s : Site) (r : Run) (os later : List Occurrence) :
    Prop where
  /-- Nothing comes of it any more unless its handler was too late. -/
  inTime : r.timedOut = false → later = []
  /-- What is handed over was under way at the checkpoint, or has been offered since. -/
  origin : ∀ report ∈ reports later, report ∈ r.underway ∨ report ∈ offers later
  /-- On a timely host only faults are offered; on any other one the handler of unknown types may be
  called as late as that. -/
  offered : ∀ report ∈ offers later,
    report.mode = .error ∨ timely = false ∧ report.mode = .unknownPayload
  /-- What is handed over comes of a handler that had been reported as too late: it is its fault or,
  from the handler of unknown types, its own report. -/
  late : ∀ report ∈ reports later, ∃ handler, s.assigned r.event = .ok handler
    ∧ s.timeoutReport r.event handler ∈ reports os
    ∧ report ∈ s.returnReports r.event handler
    ∧ (report.mode = .error
      ∨ handler.behavior = .reportsUnknown ∧ report = s.unknownReport r.event)
  /-- On a timely host a report of an unknown type was under way at the checkpoint, and the sink
  takes at least the timeout of the handler for it. -/
  slow : timely = true → ∀ report ∈ reports later, report.mode = .unknownPayload →
    report ∈ r.underway ∧ ∃ handler, s.assigned r.event = .ok handler
      ∧ handler.timeout.ticks ≤ (s.dispatcher.sink.delay s.ticket report).ticks

end Host

namespace Run

variable {s : Site} {r r' : Run} {os : List Occurrence} {timely : Bool}

theorem Life.atCheckpoint (hl : Life timely s r os) (hw : r.worker = .joined)
    (hsink : s.dispatcher.sink.Returns) : Host.AtCheckpoint s r os where
  unassigned text ha := by
    refine ⟨?_, (hl.unassigned_reports hsink hw ha).2⟩
    cases hl.stage with
    | failed _ _ ht => exact ht
    | inTime ha' | late ha' => cases ha'.symm.trans ha
    | _ => simp_all
  inTime handler ha ht := by
    have hreports := hl.reports_perm hsink
    cases hl.stage with
    | inTime _ _ hs =>
      simp only [strandReports, workerReports, ha, hs, ht] at hreports
      exact ⟨by simp [hs, Strand.hasReturned], by simpa using hreports⟩
    | failed ha' => cases ha'.symm.trans ha
    | _ => simp_all
  late handler ha ht := by
    have hreports := hl.reports_perm hsink
    simp only [workerReports, ha, ht, hw, Worker.isUnfinished] at hreports
    exact ⟨hreports.mem_iff.mpr (List.mem_append_right _ (by simp)),
      fun report => (hl.strandFits ha).mem_returnReports hw⟩
  settled ht := by
    obtain ⟨-, hunderway⟩ := hl.stage.done_of_joined hw ht
    refine ⟨hunderway, ?_⟩
    have hoffers := hl.offers_perm
    rwa [hunderway, List.append_nil] at hoffers

end Run

namespace Host

variable {h h' h₁ h₂ h₃ h₄ : Host} {timely : Bool} {d : Dispatcher} {i : Instrumentation}
  {partition : String} {events : Option (List Event)} {cancelled : Bool}

theorem countP_inFlight_eq {runs : List Run}
    (hr : ∀ r ∈ runs, r.strand.isInFlight = true → r.timedOut = true) :
    runs.countP (·.strand.isInFlight)
      = runs.countP fun r => r.timedOut && r.strand.isInFlight := by
  apply List.countP_congr
  intro r hmem
  constructor
  · intro hflight
    simp [hflight, hr r hmem hflight]
  · intro hboth
    exact (Bool.and_eq_true_iff.mp hboth).2

/-- What comes of a message after its worker has ended, if the sink never breaks off. -/
theorem Sound.afterCheckpoint (hs : Sound timely h) (hreach : Reaches timely h h') {t : Ticket}
    {r : Run} (hr : h.run? t = some r) (hw : r.worker = .joined)
    (hsink : h.dispatcher.sink.Returns) :
    ∃ later, h'.deeds (.message t) = h.deeds (.message t) ++ later
      ∧ AfterCheckpoint timely (h.site t) r (h.deeds (.message t)) later := by
  obtain ⟨r', later, hr', -, -, hdeeds, hoffers⟩ := hs.later_offers hreach hr hw
  have hlife := hs.life t r hr
  have hinTime : r.timedOut = false → later = [] := by
    intro ht
    obtain ⟨hdone, -⟩ := hlife.stage.done_of_joined hw ht
    obtain ⟨-, hkept⟩ := hs.run_finished hreach hr hw hdone
    rw [hdeeds] at hkept
    exact List.append_right_eq_self.mp hkept
  have horigin (report : PoisonReport) (hreport : report ∈ reports later) :
      report ∈ r.underway ∨ report ∈ offers later :=
    hs.later_reports (hs.reaches hreach) hr hr' hdeeds hreport
  have htimedOut (report : PoisonReport) (hreport : report ∈ reports later) :
      r.timedOut = true := by
    cases ht : r.timedOut with
    | true => rfl
    | false => simp [hinTime ht] at hreport
  have hhandler (report : PoisonReport) (hreport : report ∈ reports later) : ∃ handler,
      (h.site t).assigned r.event = .ok handler
        ∧ report ∈ (h.site t).returnReports r.event handler := by
    rcases horigin report hreport with hunderway | hoffered
    · exact hlife.underway_of_joined hw hunderway
    · exact (hoffers report hoffered).2
  refine ⟨later, hdeeds, hinTime, horigin, fun report hreport => (hoffers report hreport).1, ?_, ?_⟩
  · intro report hreport
    obtain ⟨handler, ha, hmem⟩ := hhandler report hreport
    have hlate := (hlife.atCheckpoint hw hsink).late handler ha (htimedOut report hreport)
    exact ⟨handler, ha, hlate.1, hmem, Site.returnReports_cases hmem⟩
  · intro htimely report hreport hmode
    subst htimely
    have hunderway : report ∈ r.underway := by
      refine (horigin report hreport).resolve_right fun hoffered => ?_
      simpa [hmode] using (hoffers report hoffered).1
    obtain ⟨handler, ha, hmem⟩ := hhandler report hreport
    rcases Site.returnReports_cases hmem with herror | ⟨hb, rfl⟩
    · simp [hmode] at herror
    · exact ⟨hunderway, handler, ha, hlife.timeout_le_delay ha hb (htimedOut _ hreport)⟩

end Host

/-! ## The level at a checkpoint -/

/-- A handler that is not in flight never is again. -/
theorem Run.StrandStep.inFlight_le {s : Site} {r r' : Run} {os : List Occurrence}
    (h : StrandStep s r r' os) : r'.strand.isInFlight.toNat ≤ r.strand.isInFlight.toNat := by
  cases h with
  | called hs | calledUnknown hs => simp [hs, Strand.isInFlight]
  | completed | faulted | unknownReported | unknownLost | faultReported => exact Nat.zero_le _

/-- The handlers of a batch that has ended do nothing but return. -/
theorem Batch.Change.inFlight_le {d : Dispatcher} {b b' : Batch} {os : List Occurrence}
    (h : Change d b b' os) (hb : b.Orderly) {result : Except DispatchError Unit} {time : Nat}
    (hp : b.phase = .ended result time) : b'.phase = .ended result time
      ∧ b'.runs.countP (·.strand.isInFlight) ≤ b.runs.countP (·.strand.isInFlight) := by
  cases h with
  | step h => cases h <;> simp_all [Phase.isPending]
  | worker hk _ h =>
    exact absurd (hb.joined_of_ended hp (List.mem_of_getElem? hk)) h.ne_joined
  | @strand s k r r' os hk h =>
    have hcount := countP_set_run (·.strand.isInFlight) r' hk
    have hle := h.inFlight_le
    exact ⟨hp, by dsimp only; omega⟩
  | cancelled => exact ⟨hp, Nat.le_refl _⟩

namespace Host

variable {h h' h₁ h₂ h₃ h₄ : Host} {timely : Bool} {d : Dispatcher} {i : Instrumentation}
  {partition : String} {events : Option (List Event)} {cancelled : Bool}

/-- No batch of a lease is in progress; handlers that were too late may be at work. -/
def IsFree (h : Host) (lease : Nat) : Prop :=
  ∀ b ∈ h.batches, b.lease = lease → b.result?.isSome = true

/-- Nothing is left to do on a lease; handlers may be at work for ever. -/
def IsIdle (h : Host) (lease : Nat) : Prop :=
  ∀ b ∈ h.batches, b.lease = lease → b.isAtRest = true

/-- How many handlers of the first batches are in flight on a lease. -/
def inFlightUpTo (h : Host) (n lease : Nat) : Nat :=
  (h.upTo n).total (fun l => if l = lease then 1 else 0) (·.strand.isInFlight)

theorem inFlightUpTo_of_step {n : Nat} (hstep : h.step (.batch n) = some h') (lease : Nat) :
    h'.inFlightUpTo n lease = h.inFlightUpTo n lease := by
  have hc : Change false h h' (.batch n) := change_stepBatch hstep
  cases hc with
  | batch _ _ hbatches => simp [inFlightUpTo, upTo, total, hbatches, List.take_set_of_le]

/-- What is so of each batch that was there is so of the first batches. -/
theorem forall₂_upTo {f : Batch → Nat} {R : Nat → Nat → Prop} (hR : ∀ (n : Nat) (b : Batch),
      h.batches[n]? = some b → ∃ b', h'.batches[n]? = some b' ∧ R (f b') (f b)) :
    List.Forall₂ R ((h'.upTo h.batches.length).batches.map f) (h.batches.map f) := by
  have hlength : h.batches.length ≤ h'.batches.length := by
    apply Nat.le_of_not_lt
    intro hlt
    obtain ⟨b', hb', -⟩ := hR _ _ (List.getElem?_eq_getElem hlt)
    simp at hb'
  refine List.forall₂_iff_get.mpr ⟨by simpa [upTo] using hlength, ?_⟩
  intro n hn hn'
  rw [List.length_map] at hn'
  obtain ⟨b', hb', hR⟩ := hR n _ (List.getElem?_eq_getElem hn')
  obtain ⟨hn'', rfl⟩ := List.getElem?_eq_some_iff.mp hb'
  simpa [upTo] using hR

/-- A batch that has ended stays so, with its result, and its handlers do nothing but return. -/
theorem Sound.ended_stays (hs : Sound timely h) (hreach : Reaches timely h h') {n : Nat}
    {b : Batch} (hb : h.batches[n]? = some b) {result : Except DispatchError Unit} {time : Nat}
    (hp : b.phase = .ended result time) : ∃ b', h'.batches[n]? = some b'
      ∧ b'.phase = .ended result time ∧ b'.lease = b.lease
      ∧ b'.runs.countP (·.strand.isInFlight) ≤ b.runs.countP (·.strand.isInFlight) := by
  induction hreach with
  | refl => exact ⟨b, hb, hp, rfl, Nat.le_refl _⟩
  | tail hreach hmoves ih =>
    obtain ⟨b₁, hb₁, hp₁, hlease₁, hle₁⟩ := ih
    have hs₁ := hs.reaches hreach
    obtain ⟨place, hchange⟩ := hs₁.change hmoves
    obtain ⟨b₂, os, hb₂, hcases, -⟩ := hs₁.batch_cases hchange hb₁
    rcases hcases with ⟨rfl, -⟩ | hchange
    · exact ⟨b₂, hb₂, hp₁, hlease₁, hle₁⟩
    · obtain ⟨hp₂, hle₂⟩ := hchange.inFlight_le (hs₁.orderly n b₁ hb₁) hp₁
      exact ⟨b₂, hb₂, hp₂, hchange.lease_eq.trans hlease₁, Nat.le_trans hle₂ hle₁⟩

/-- What is so of the handlers in flight in each batch of a lease is so of the terms of their sum, to
which the batches of other leases add nothing. -/
theorem Sound.forall₂_inFlight (hs : Sound timely h) (hreach : Reaches timely h h') {lease : Nat}
    {R : Nat → Nat → Prop} (hzero : R 0 0) (hR : ∀ (n : Nat) (b : Batch),
      h.batches[n]? = some b → b.lease = lease → ∃ b', h'.batches[n]? = some b' ∧ b'.lease = b.lease
        ∧ R (b'.runs.countP (·.strand.isInFlight)) (b.runs.countP (·.strand.isInFlight))) :
    List.Forall₂ R
      ((h'.upTo h.batches.length).batches.map fun b =>
        (if b.lease = lease then 1 else 0) * b.runs.countP (·.strand.isInFlight))
      (h.batches.map fun b =>
        (if b.lease = lease then 1 else 0) * b.runs.countP (·.strand.isInFlight)) := by
  refine forall₂_upTo fun n b hb => ?_
  by_cases hlease : b.lease = lease
  · obtain ⟨b', hb', hlease', hcount⟩ := hR n b hb hlease
    exact ⟨b', hb', by simpa [hlease', hlease] using hcount⟩
  · obtain ⟨b', hb', hcontinues⟩ := hs.continues hreach hb
    exact ⟨b', hb', by simpa [hcontinues.lease_eq, hlease] using hzero⟩

/-- On a lease on which no batch is in progress the handlers do nothing but return. -/
theorem Sound.inFlightUpTo_le (hs : Sound timely h) (hreach : Reaches timely h h') {lease : Nat}
    (hfree : h.IsFree lease) : h'.inFlightUpTo h.batches.length lease
      ≤ h.total (fun l => if l = lease then 1 else 0) (·.strand.isInFlight) := by
  refine (hs.forall₂_inFlight hreach (Nat.le_refl 0) ?_).sum_le_sum
  intro n b hb hlease
  obtain ⟨⟨result, time⟩, hresult⟩ :=
    Option.isSome_iff_exists.mp (hfree b (List.mem_of_getElem? hb) hlease)
  obtain ⟨b', hb', -, hlease', hle⟩ :=
    hs.ended_stays hreach hb (Batch.result?_eq_some_iff.mp hresult)
  exact ⟨b', hb', hlease', hle⟩

/-- On an idle lease nothing changes. -/
theorem Sound.inFlightUpTo_eq (hs : Sound timely h) (hreach : Reaches timely h h') {lease : Nat}
    (hidle : h.IsIdle lease) : h'.inFlightUpTo h.batches.length lease
      = h.total (fun l => if l = lease then 1 else 0) (·.strand.isInFlight) := by
  refine congrArg List.sum (List.forall₂_eq_eq_eq ▸ hs.forall₂_inFlight hreach rfl ?_)
  intro n b hb hlease
  obtain ⟨b', hb', hlease', hruns, -⟩ :=
    hs.batch_rest hreach hb (hidle b (List.mem_of_getElem? hb) hlease)
  exact ⟨b', hb', hlease', by rw [hruns]⟩

/-- When all workers of the last batch of a lease have ended, those of its handlers that are in
flight were too late. -/
theorem level_of_joined (hreach : Reaches timely (.new d i) h) {n : Nat} {b : Batch}
    (hb : h.batches[n]? = some b)
    (hlast : ∀ m b', h.batches[m]? = some b' → b'.lease = b.lease → m ≤ n)
    (hjoined : ∀ r ∈ b.runs, r.worker = .joined) :
    h.level b.lease = h.inFlightUpTo n b.lease
      + (b.runs.countP fun r => r.timedOut && r.strand.isInFlight) := by
  have hlate : ∀ r ∈ b.runs, r.strand.isInFlight = true → r.timedOut = true := by
    intro r hr hflight
    obtain ⟨j, hj⟩ := List.mem_iff_getElem?.mp hr
    have hstage := (sound_of_reaches hreach).stage (t := ⟨n, j⟩) (run?_eq_some.mpr ⟨b, hb, hj⟩)
    exact hstage.timedOut_of_finished (by simp [hjoined r hr, Worker.isUnfinished]) hflight
  rw [level_eq_total hreach, total_eq_upTo_add hb hlast, countP_inFlight_eq hlate]
  rfl

/-- At the checkpoint of a batch all reports have been handed over that are owed to messages without
a handler, to handlers that were too late and to those that returned in time. Only handlers that
were too late are still at work, and only they are reported later: with their faults and, if they
are handlers of unknown types, with their own reports. Those are under way already on a timely host,
since a sink that takes no longer than the timeout of the handler has taken them before.

The level is that of the handlers of earlier batches that are still at work, and those of the batch
that were too late. So it has risen by the number of the latter if nothing was left to do on the
lease when the batch arrived; if handlers of an earlier batch return meanwhile, it has risen by
less. -/
theorem at_checkpoint {b : Batch} (hsink : d.sink.Returns) (hreach : Reaches timely (.new d i) h)
    (haccept : h.accept partition events cancelled = .ok h₁) (hrun : Reaches timely h₁ h₂)
    (hb : h₂.batches[h.batches.length]? = some b)
    (hstep : h₂.step (.batch h.batches.length) = some h₃)
    (hcheck : h₃.deeds (.batch h.batches.length)
      = h₂.deeds (.batch h.batches.length) ++ [.checkpointed]) :
    (∀ j r, b.runs[j]? = some r →
      AtCheckpoint (h₂.site ⟨h.batches.length, j⟩) r (h₂.deeds (.message ⟨h.batches.length, j⟩))
      ∧ ∀ h₄, Reaches timely h₃ h₄ → ∃ later,
        h₄.deeds (.message ⟨h.batches.length, j⟩)
            = h₂.deeds (.message ⟨h.batches.length, j⟩) ++ later
          ∧ AfterCheckpoint timely (h₂.site ⟨h.batches.length, j⟩) r
            (h₂.deeds (.message ⟨h.batches.length, j⟩)) later)
    ∧ ((∀ n b', h₂.batches[n]? = some b' → b'.lease = b.lease → n ≤ h.batches.length) →
      h₃.level b.lease = h₃.inFlightUpTo h.batches.length b.lease
          + (b.runs.countP fun r => r.timedOut && r.strand.isInFlight)
        ∧ (h.IsFree b.lease → h₃.inFlightUpTo h.batches.length b.lease ≤ h.level b.lease)
        ∧ (h.IsIdle b.lease →
          h₃.level b.lease
              = h.level b.lease + (b.runs.countP fun r => r.timedOut && r.strand.isInFlight)
            ∧ ((∀ r ∈ b.runs, r.timedOut = false) → h₃.level b.lease = h.level b.lease))) := by
  have hrun₂ := (reaches_accept haccept).trans hrun
  have hs := sound_of_reaches hreach
  have hs₂ := hs.reaches hrun₂
  have hsink₂ : h₂.dispatcher.sink.Returns := by rwa [dispatcher_of_reaches (hreach.trans hrun₂)]
  have hjoined := joined_of_checkpoint hb hstep hcheck
  constructor
  · intro j r hr
    have hr₂ : h₂.run? ⟨h.batches.length, j⟩ = some r := run?_eq_some.mpr ⟨b, hb, hr⟩
    have hw := hjoined r (List.mem_of_getElem? hr)
    refine ⟨(hs₂.life _ r hr₂).atCheckpoint hw hsink₂, ?_⟩
    intro h₄ hreach₄
    have hmoves : Moves timely h₂ h₃ := ⟨.step (.batch h.batches.length), hstep, fun _ => nofun⟩
    exact hs₂.afterCheckpoint (.head hmoves hreach₄) hr₂ hw hsink₂
  · intro hlast
    have hlevel : h₃.level b.lease = h₃.inFlightUpTo h.batches.length b.lease
        + (b.runs.countP fun r => r.timedOut && r.strand.isInFlight) := by
      rw [(step_batch_eq hstep).2, inFlightUpTo_of_step hstep,
        level_of_joined (hreach.trans hrun₂) hb hlast hjoined]
    have hbefore := level_eq_total hreach b.lease
    rw [inFlightUpTo_of_step hstep] at hlevel ⊢
    refine ⟨hlevel, ?_, ?_⟩
    · intro hfree
      have hle := hs.inFlightUpTo_le hrun₂ hfree
      rw [hbefore]
      exact_mod_cast hle
    · intro hidle
      rw [hs.inFlightUpTo_eq hrun₂ hidle, ← hbefore] at hlevel
      refine ⟨hlevel, ?_⟩
      intro ht
      have hnone : (b.runs.countP fun r => r.timedOut && r.strand.isInFlight) = 0 := by
        rw [List.countP_eq_zero]
        intro r hr
        simp [ht r hr]
      rw [hlevel, hnone, Nat.cast_zero, add_zero]

/-- At the checkpoint of the batch one handler is still at work, the one that was too late. -/
theorem at_checkpoint_trial : ∃ b, (trialCourse 16).batches = [b]
    ∧ (b.runs.countP fun r => r.timedOut && r.strand.isInFlight) = 1
    ∧ (trialCourse 17).level b.lease = trial.level b.lease + 1 := by
  have hstep : (trialCourse 16).step (.batch 0) = some (trialCourse 17) :=
    led_succ rfl (by decide +kernel)
  have hlength : (trialCourse 16).batches.length = 1 := by decide +kernel
  obtain ⟨b, hb⟩ := List.length_eq_one_iff.mp hlength
  have hcount : ((trialCourse 16).batches.flatMap (·.runs)).countP
      (fun r => r.timedOut && r.strand.isInFlight) = 1 := by decide +kernel
  rw [hb, List.flatMap_singleton] at hcount
  obtain ⟨-, hlevel⟩ := at_checkpoint (b := b) returns_trial reaches_trial accept_trial
    (isCourse_trialCourse.reaches (Nat.zero_le 16)) (by rw [hb]; rfl) hstep (by decide +kernel)
  have halone (n : Nat) (b' : Batch) (hb' : (trialCourse 16).batches[n]? = some b') : n ≤ 0 := by
    obtain ⟨hlt, -⟩ := List.getElem?_eq_some_iff.mp hb'
    omega
  refine ⟨b, hb, hcount, ?_⟩
  obtain ⟨-, -, hidle⟩ := hlevel fun n b' hb' _ => halone n b' hb'
  rw [(hidle fun _ => nofun).1, hcount]
  rfl

/-! ## A sink that is slower than the timeout of unknown types -/

/-- A dispatcher to which every type is unknown. Its sink takes six seconds for the report of an
unknown type, one more than the handler may take, and no time for any other report. -/
def sluggishDispatcher : Dispatcher where
  stream := "trial"
  maxConcurrency := 1
  admission := .free
  chooser := (⟨[]⟩ : Resolver)
  sink := { Sink.memory (.ofMillis 0) false [] with
    delay := fun _ report => if report.mode = .unknownPayload then .ofSeconds 6 else .ofMillis 0 }

/-- The host with a lease of one partition. -/
def sluggish : Schedule :=
  { Schedule.new (.new sluggishDispatcher none) with
    host := (Host.new sluggishDispatcher none).openPartition "0" (.ok ()) }

/-- Delivers a batch of one event, and goes on until it has ended. -/
def awaitOne (s : Schedule) (n : Nat) : Schedule :=
  ((s.deliver "0" (some [Event.new "1" "a" default]) none).toOption.getD s).await 40 n

theorem wakeful_awaitOne {s : Schedule} (hw : s.Wakeful) (hs : s.host.Sound true) (n : Nat) :
    (awaitOne s n).Wakeful ∧ Reaches true s.host (awaitOne s n).host := by
  unfold awaitOne
  cases hdeliver : s.deliver "0" (some [Event.new "1" "a" default]) none with
  | error e => exact hw.run hs _ none 40
  | ok s' =>
    have hdelivered : s'.Wakeful ∧ Reaches true s.host s'.host := hw.deliver hdeliver
    obtain ⟨hw', hreach⟩ := hdelivered
    obtain ⟨hw'', hreach'⟩ := hw'.run (hs.reaches hreach)
      (fun h => (h.batches[n]?.bind (·.result?)).isSome) none 40
    exact ⟨hw'', hreach.trans hreach'⟩

/-- A report of an unknown type may be handed over after the checkpoint of its batch, and the level
may stay the same at a checkpoint though a handler of the batch is late. The first batch asks for
its checkpoint after five seconds, and its report is handed over after six; by then the second batch
has arrived, and when that asks for its checkpoint the handler of the first one has returned. -/
theorem report_outlasts_checkpoint :
    sluggishDispatcher.sink.Returns
      ∧ Reaches true (.new sluggishDispatcher none) sluggish.host ∧ sluggish.host.batches = []
      ∧ Reaches true sluggish.host (awaitOne sluggish 0).host
      ∧ Reaches true (awaitOne sluggish 0).host (awaitOne (awaitOne sluggish 0) 1).host
      ∧ .checkpointed ∈ (awaitOne sluggish 0).host.deeds (.batch 0)
      ∧ (reports ((awaitOne sluggish 0).host.deeds (.message ⟨0, 0⟩))).map (·.mode) = [.timeout]
      ∧ (reports ((awaitOne (awaitOne sluggish 0) 1).host.deeds (.message ⟨0, 0⟩))).map (·.mode)
        = [.timeout, .unknownPayload]
      ∧ (awaitOne sluggish 0).host.level 0 = 1
      ∧ .checkpointed ∈ (awaitOne (awaitOne sluggish 0) 1).host.deeds (.batch 1)
      ∧ ((awaitOne (awaitOne sluggish 0) 1).host.batches[1]?.map fun b =>
        b.runs.countP fun r => r.timedOut && r.strand.isInFlight) = some 1
      ∧ (awaitOne (awaitOne sluggish 0) 1).host.level 0 = 1 := by
  have hreach : Reaches true (.new sluggishDispatcher none) sluggish.host :=
    .single ⟨.openPartition "0" (.ok ()), rfl, fun _ => nofun⟩
  have hw : sluggish.Wakeful :=
    (Schedule.Wakeful.new sluggishDispatcher none).aside (aside_openPartition _ "0" (.ok ()))
  obtain ⟨hw₁, hreach₁⟩ := wakeful_awaitOne hw (sound_of_reaches hreach) 0
  obtain ⟨-, hreach₂⟩ := wakeful_awaitOne hw₁ (sound_of_reaches (hreach.trans hreach₁)) 1
  refine ⟨?_, hreach, rfl, hreach₁, hreach₂, by decide +kernel, by decide +kernel,
    by decide +kernel, by decide +kernel, by decide +kernel, by decide +kernel, by decide +kernel⟩
  intro ticket report message
  simp [sluggishDispatcher, Sink.memory]

end Host

end StreamDispatch
