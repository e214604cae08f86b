import StreamDispatch.Proofs.Dispatch.Life

set_option autoImplicit false

/-! # What a message waits for

Neither task of a message is ever stuck: each can go on from some tick on, or has nothing left to
do. On a timely host no task is kept waiting beyond that tick. Then the race between a handler and
its timeout is decided by how long the handler works, except when both end at the same tick. -/

namespace StreamDispatch

/-- Whether a strand has nothing left to do. A handler that works for ever counts as one. -/
def Strand.isDone : Strand → Bool
  | .absent | .working none _ | .ended _ => true
  | _ => false

namespace Run

variable {s : Site} {r r' : Run} {os os' : List Occurrence}

/-- A strand that has nothing left to do takes no step. -/
theorem StrandStep.isDone_eq_false (h : StrandStep s r r' os) : r.strand.isDone = false := by
  cases h with
  | called hs | calledUnknown hs | completed hs | faulted hs | unknownReported hs | unknownLost hs
  | faultReported _ hs => simp [hs, Strand.isDone]

/-! ## No task is stuck -/

theorem stepStrand_isSome_of_ready (hs : r.strand = .ready) {h : Handler}
    (hh : r.handler = some h) : (r.stepStrand s).isSome = true := by
  simp [stepStrand, hs, hh]

theorem stepStrand_isSome_of_due {due : Nat} (hs : r.strandDue? = some due) (hd : due ≤ s.now) :
    (r.stepStrand s).isSome = true := by
  unfold strandDue? at hs
  split at hs
  · next hstrand =>
    subst hs
    simp [stepStrand, hstrand, hd]
  · next hstrand =>
    cases hs
    simp [stepStrand, hstrand, hd]
  · next hstrand =>
    cases hs
    simp [stepStrand, hstrand, hd]
  · cases hs

/-- A strand that has something left to do can go on from some tick on. -/
theorem Stage.strand_goes_on (hr : Stage s r) (hs : r.strand.isDone = false) :
    ∃ tick, ∀ now, tick ≤ now → (r.stepStrand { s with now }).isSome = true := by
  cases hstrand : r.strand with
  | ready =>
    obtain ⟨h, -, hh⟩ := hr.assigned_of_strand (by simp [hstrand])
    exact ⟨0, fun now _ => stepStrand_isSome_of_ready hstrand hh⟩
  | working due outcome =>
    cases due with
    | none => simp [hstrand, Strand.isDone] at hs
    | some due =>
      exact ⟨due, fun now hnow => stepStrand_isSome_of_due (by simp [strandDue?, hstrand]) hnow⟩
  | reportingUnknown d =>
    exact ⟨d.due, fun now hnow => stepStrand_isSome_of_due (by simp [strandDue?, hstrand]) hnow⟩
  | reportingFault d =>
    exact ⟨d.due, fun now hnow => stepStrand_isSome_of_due (by simp [strandDue?, hstrand]) hnow⟩
  | absent => simp [hstrand, Strand.isDone] at hs
  | ended abnormal => simp [hstrand, Strand.isDone] at hs

theorem stepWorker_isSome_of_due {due : Nat} (hw : r.workerDue? = some due) (hd : due ≤ s.now) :
    (r.stepWorker s).isSome = true := by
  unfold workerDue? at hw
  split at hw
  · next hworker =>
    cases hw
    by_cases hs : r.strand.hasReturned = true <;> simp [stepWorker, hworker, hs, hd]
  · next hworker =>
    cases hw
    simp [stepWorker, hworker, hd]
  · next hworker =>
    cases hw
    simp [stepWorker, hworker, hd]
  · cases hw

/-- A worker that has not ended can go on from some tick on, unless it waits for the strand. -/
theorem worker_goes_on (hw : r.worker.isUnfinished = true)
    (hs : r.worker = .joining → ∃ abnormal, r.strand = .ended abnormal) :
    ∃ tick, ∀ now, tick ≤ now → (r.stepWorker { s with now }).isSome = true := by
  cases hworker : r.worker with
  | ready => exact ⟨0, fun now _ => by simp [stepWorker, hworker]⟩
  | racing deadline =>
    exact ⟨deadline, fun now hnow => stepWorker_isSome_of_due (by simp [workerDue?, hworker]) hnow⟩
  | joining =>
    obtain ⟨abnormal, hstrand⟩ := hs hworker
    exact ⟨0, fun now _ => by simp [stepWorker, hworker, hstrand]⟩
  | reportingTimeout d =>
    exact ⟨d.due, fun now hnow => stepWorker_isSome_of_due (by simp [workerDue?, hworker]) hnow⟩
  | reportingFailure d =>
    exact ⟨d.due, fun now hnow => stepWorker_isSome_of_due (by simp [workerDue?, hworker]) hnow⟩
  | ended abnormal => simp [hworker, Worker.isUnfinished] at hw
  | joined => simp [hworker, Worker.isUnfinished] at hw

/-- As long as the worker of a message has not ended, one of the two tasks can go on from some tick
on. -/
theorem Stage.goes_on (hr : Stage s r) (hw : r.worker.isUnfinished = true) :
    (∃ tick, ∀ now, tick ≤ now → (r.stepWorker { s with now }).isSome = true)
      ∨ ∃ tick, ∀ now, tick ≤ now → (r.stepStrand { s with now }).isSome = true := by
  have hgo := hr.strand_goes_on
  by_cases hjoining : r.worker = .joining
  · -- The worker waits for a strand whose handler has returned, so the strand can go on.
    cases hr with
    | joining _ _ hs =>
      cases hstrand : r.strand with
      | ended abnormal => exact .inl (worker_goes_on hw fun _ => ⟨abnormal, hstrand⟩)
      | reportingFault d => exact .inr (hgo (by simp [hstrand, Strand.isDone]))
      | _ => simp [hstrand, Strand.hasReturned] at hs
    | _ => simp_all
  · exact .inl (worker_goes_on hw fun hw' => absurd hw' hjoining)

end Run

/-! ## Work left -/

/-- How many steps a worker has left at most. -/
def Worker.stepsLeft : Worker → Nat
  | .ready => 6
  | .racing _ => 5
  | .joining | .reportingTimeout _ => 4
  | .reportingFailure _ => 3
  | .ended _ => 1
  | .joined => 0

/-- How many steps a strand has left at most. -/
def Strand.stepsLeft : Strand → Nat
  | .absent | .ready => 3
  | .working _ _ | .reportingUnknown _ => 2
  | .reportingFault _ => 1
  | .ended _ => 0

namespace Run

variable {timely : Bool} {s : Site} {r r' : Run} {os os' : List Occurrence}

/-- How many steps the tasks of a message have left at most. -/
def stepsLeft (r : Run) : Nat := r.worker.stepsLeft + r.strand.stepsLeft

theorem WorkerStep.stepsLeft_lt (h : WorkerStep s r r' os) (hr : Stage s r) :
    r'.stepsLeft < r.stepsLeft := by
  cases h with
  | launched hw ha =>
    cases hr with
    | untouched _ _ hs => simp [stepsLeft, hw, hs, Worker.stepsLeft, Strand.stepsLeft]
    | _ => simp_all [Worker.isUnfinished]
  | failed _ hw | won hw | timedOut hw | joined hw | timeoutReported hw | timeoutLost hw
  | failureReported _ hw | noted hw => simp [stepsLeft, hw, Worker.stepsLeft]

theorem StrandStep.stepsLeft_lt (h : StrandStep s r r' os) : r'.stepsLeft < r.stepsLeft := by
  cases h with
  | called hs | calledUnknown hs | completed hs | faulted hs | unknownReported hs | unknownLost hs
  | faultReported _ hs => simp [stepsLeft, hs, Strand.stepsLeft]

/-! ## Nothing is late on a timely host -/

/-- What a message waits for is still to come, and the race between a handler and its timeout is
decided as its length says. -/
structure OnTime (s : Site) (r : Run) (h : Handler) : Prop where
  worker : ∀ due, r.workerDue? = some due → s.now ≤ due
  strand : ∀ due, r.strandDue? = some due → s.now ≤ due
  /-- The handler is called at the tick from which its timeout is counted. -/
  called : ∀ deadline, r.worker = .racing deadline → r.strand = .ready →
    deadline = s.now + h.timeout.ticks
  /-- The deadline is as far from the end of the work as the timeout is from its length. -/
  gap : ∀ deadline due work, r.worker = .racing deadline → r.strand.isInFlight = true →
    r.strandDue? = some due → (s.performance r.event h).1 = some work →
    deadline + work.ticks = due + h.timeout.ticks
  inTime : r.timedOut = false → r.strand.hasReturned = true →
    ∃ work, (s.performance r.event h).1 = some work ∧ work.ticks ≤ h.timeout.ticks
  late : r.timedOut = true → ∀ work, (s.performance r.event h).1 = some work →
    h.timeout.ticks ≤ work.ticks
  /-- A handler that is called only after its timeout has none. -/
  calledLate : r.timedOut = true → r.strand = .ready → h.timeout.ticks = 0

theorem Settled.lt_workerDue (hr : r.Settled s) {due : Nat} (hw : r.workerDue? = some due) :
    s.now < due := by
  apply Nat.lt_of_not_le
  intro hle
  have hstep := stepWorker_isSome_of_due (s := s) hw hle
  simp [hr.1] at hstep

theorem Settled.lt_strandDue (hr : r.Settled s) {due : Nat} (hs : r.strandDue? = some due) :
    s.now < due := by
  apply Nat.lt_of_not_le
  intro hle
  have hstep := stepStrand_isSome_of_due (s := s) hs hle
  simp [hr.2] at hstep

/-- The clock goes on only when the strand has been called. -/
theorem Settled.strand_ne_ready (hr : r.Settled s) (hstage : Stage s r) : r.strand ≠ .ready := by
  intro hs
  obtain ⟨h, -, hh⟩ := hstage.assigned_of_strand (by simp [hs])
  have hstep := stepStrand_isSome_of_ready (s := s) hs hh
  simp [hr.2] at hstep

namespace OnTime

variable {h : Handler}

theorem new (s : Site) (e : Event) (h : Handler) : OnTime s (Run.new e) h where
  worker _ := nofun
  strand _ := nofun
  called _ := nofun
  gap _ _ _ := nofun
  inTime _ := nofun
  late := nofun
  calledLate := nofun

theorem tick (ht : OnTime s r h) (hstage : Stage s r) (hr : r.Settled s) :
    OnTime { s with now := s.now + 1 } r h where
  worker _ hw := hr.lt_workerDue hw
  strand _ hs := hr.lt_strandDue hs
  called _ _ hs := absurd hs (hr.strand_ne_ready hstage)
  gap := ht.gap
  inTime := ht.inTime
  late := ht.late
  calledLate _ hs := absurd hs (hr.strand_ne_ready hstage)

/-- The worker leaves the race, or goes on to what is due later. -/
theorem set_worker (ht : OnTime s r h) {worker : Worker}
    (hdue : ∀ due, ({ r with worker } : Run).workerDue? = some due → s.now ≤ due)
    (hw : ∀ deadline, worker ≠ .racing deadline) : OnTime s { r with worker } h where
  worker := hdue
  strand := ht.strand
  called deadline hr := absurd hr (hw deadline)
  gap deadline _ _ hr := absurd hr (hw deadline)
  inTime := ht.inTime
  late := ht.late
  calledLate := ht.calledLate

/-- The race is lost at a tick only if the handler works for at least as long as its timeout. -/
theorem timeout_le (ht : OnTime s r h) (hfits : StrandFits s r.event h r.strand)
    {deadline : Nat} (hw : r.worker = .racing deadline) (hstrand : r.strand ≠ .absent)
    (hs : r.strand.hasReturned = false) (hd : deadline ≤ s.now) {work : Duration}
    (hwork : (s.performance r.event h).1 = some work) : h.timeout.ticks ≤ work.ticks := by
  have hgap (due : Nat) (hflight : r.strand.isInFlight = true) (hdue : r.strandDue? = some due) :
      h.timeout.ticks ≤ work.ticks := by
    have hdeadline := ht.gap deadline due work hw hflight hdue hwork
    have hnow := ht.strand due hdue
    omega
  cases hcase : r.strand with
  | absent => exact absurd hcase hstrand
  | ready =>
    -- A handler that has not even been called loses the race only with a timeout of zero.
    have hdeadline := ht.called deadline hw hcase
    omega
  | working due outcome =>
    rw [hcase] at hfits
    have hdue := hfits.2.1
    rw [hwork] at hdue
    obtain ⟨due, rfl⟩ := Option.isSome_iff_exists.mp hdue
    exact hgap due (by simp [hcase, Strand.isInFlight]) (by simp [strandDue?, hcase])
  | reportingUnknown d =>
    exact hgap d.due (by simp [hcase, Strand.isInFlight]) (by simp [strandDue?, hcase])
  | reportingFault d => simp [hcase, Strand.hasReturned] at hs
  | ended abnormal => simp [hcase, Strand.hasReturned] at hs

theorem worker_step (ht : OnTime s r h) (hstage : Stage s r) (ha : s.assigned r.event = .ok h)
    (hfits : StrandFits s r.event h r.strand) (hstep : WorkerStep s r r' os) :
    OnTime s r' h := by
  cases hstep with
  | failed handler hw ha' => cases ha'.symm.trans ha
  | launched hw ha' =>
    obtain rfl := Except.ok.inj (ha'.symm.trans ha)
    -- Nobody has lost the race before it begins.
    have htime : r.timedOut = false := by
      cases hstage with
      | untouched _ _ _ ht => exact ht
      | _ => simp_all [Worker.isUnfinished]
    exact {
      worker := by simp [workerDue?]
      strand := by simp [strandDue?]
      called := by simp
      gap := by simp [strandDue?]
      inTime := by simp [Strand.hasReturned]
      late := by simp [htime]
      calledLate := by simp [htime] }
  | won hw hs => exact ht.set_worker (by simp [workerDue?]) (by simp)
  | timedOut hw hs hd hh =>
    obtain ⟨-, hstrand, h', ha', hh'⟩ := hstage.racing_of hw
    exact {
      worker := by simp [workerDue?, Site.delivery]
      strand := ht.strand
      called := by simp
      gap := by simp
      inTime := by simp
      late := fun _ work hwork => ht.timeout_le hfits hw hstrand hs hd hwork
      calledLate := fun _ hready => by
        have hdeadline := ht.called _ hw hready
        omega }
  | joined hw hs => exact ht.set_worker (by simp [workerDue?]) (by simp)
  | timeoutReported hw => exact ht.set_worker (by simp [workerDue?]) (by simp)
  | timeoutLost hw => exact ht.set_worker (by simp [workerDue?, Site.delivery]) (by simp)
  | failureReported abnormal hw => exact ht.set_worker (by simp [workerDue?]) (by simp)
  | noted hw => exact ht.set_worker (by simp [workerDue?]) (by simp)

/-- The handler is called, and is at work for as long as its performance says. -/
theorem set_called (ht : OnTime s r h) (hs : r.strand = .ready) {strand : Strand}
    (hstrand : strand.isInFlight = true) (hready : strand ≠ .ready)
    (hdue : ({ r with strand } : Run).strandDue?
      = (s.performance r.event h).1.map fun work => s.now + work.ticks) :
    OnTime s { r with strand } h where
  worker := ht.worker
  strand due hd := by
    rw [hdue] at hd
    obtain ⟨work, -, rfl⟩ := Option.map_eq_some_iff.mp hd
    omega
  called _ _ hr := absurd hr hready
  gap deadline due work hw _ hd hwork := by
    -- The deadline is a timeout away from now, and the end of the work is as far as that takes.
    have hdeadline := ht.called deadline hw hs
    have hend := hdue.symm.trans hd
    simp only [hwork, Option.map_some, Option.some.injEq] at hend
    omega
  inTime _ hr := by
    cases strand <;> simp_all [Strand.isInFlight, Strand.hasReturned]
  late := ht.late
  calledLate _ hr := absurd hr hready

/-- The handler returns at the tick at which that is due. -/
theorem set_returned (ht : OnTime s r h) (hstage : Stage s r)
    (hfits : StrandFits s r.event h r.strand) {due : Nat} (hflight : r.strand.isInFlight = true)
    (hs : r.strandDue? = some due) (hd : due ≤ s.now) {strand : Strand}
    (hreturned : strand.hasReturned = true)
    (hdue : ∀ due, ({ r with strand } : Run).strandDue? = some due → s.now ≤ due) :
    OnTime s { r with strand } h where
  worker := ht.worker
  strand := hdue
  called _ _ hr := by
    cases strand <;> simp_all [Strand.hasReturned]
  gap _ _ _ _ hr := by
    cases strand <;> simp_all [Strand.hasReturned, Strand.isInFlight]
  inTime htime _ := by
    obtain ⟨work, hwork⟩ := hfits.exists_work hflight hs
    refine ⟨work, hwork, ?_⟩
    -- The race is still on, so its deadline has not passed when the work ends.
    obtain ⟨deadline, hw⟩ := hstage.racing_of_inFlight hflight htime
    have hgap := ht.gap deadline due work hw hflight hs hwork
    have hnow := ht.worker deadline (by simp [workerDue?, hw])
    omega
  late := ht.late
  calledLate _ hr := by
    cases strand <;> simp_all [Strand.hasReturned]

theorem strand_step (ht : OnTime s r h) (hstage : Stage s r) (hh : r.handler = some h)
    (hfits : StrandFits s r.event h r.strand) (hstep : StrandStep s r r' os) :
    OnTime s r' h := by
  cases hstep with
  | called hs hh' hb =>
    obtain rfl := Option.some.inj (hh.symm.trans hh')
    exact ht.set_called hs rfl (by simp) rfl
  | calledUnknown hs hh' hb =>
    obtain rfl := Option.some.inj (hh.symm.trans hh')
    exact ht.set_called hs rfl (by simp) (by simp [strandDue?, Site.performance, hb, Site.delivery])
  | completed hs hd ho =>
    exact ht.set_returned hstage hfits (by simp [hs, Strand.isInFlight])
      (by simp [strandDue?, hs]) hd rfl (by simp [strandDue?])
  | faulted hs hd ho =>
    exact ht.set_returned hstage hfits (by simp [hs, Strand.isInFlight])
      (by simp [strandDue?, hs]) hd rfl (by simp [strandDue?, Site.delivery])
  | unknownReported hs hd hr =>
    exact ht.set_returned hstage hfits (by simp [hs, Strand.isInFlight])
      (by simp [strandDue?, hs]) hd rfl (by simp [strandDue?])
  | unknownLost hs hd hr ho =>
    exact ht.set_returned hstage hfits (by simp [hs, Strand.isInFlight])
      (by simp [strandDue?, hs]) hd rfl (by simp [strandDue?, Site.delivery])
  | faultReported abnormal hs hd =>
    exact {
      worker := ht.worker
      strand := by simp [strandDue?]
      called := by simp
      gap := by simp [Strand.isInFlight]
      inTime := fun htime _ => ht.inTime htime (by simp [hs, Strand.hasReturned])
      late := ht.late
      calledLate := by simp }

end OnTime

/-- On a timely host every message is in time throughout its life. -/
theorem Life.onTime (hl : Life true s r os) {h : Handler} (ha : s.assigned r.event = .ok h) :
    OnTime s r h := by
  induction hl with
  | new s e => exact .new s e h
  | worker life step ih =>
    rw [step.event_eq] at ha
    exact (ih ha).worker_step life.stage ha (life.strandFits ha) step
  | strand life step ih =>
    obtain ⟨strand, rfl, hs⟩ := step.advances
    obtain ⟨h', ha', hh⟩ := life.stage.assigned_of_strand hs.before
    obtain rfl : h' = h := Except.ok.inj (ha'.symm.trans ha)
    exact (ih ha).strand_step life.stage hh (life.strandFits ha) step
  | tick life settled ih => exact (ih ha).tick life.stage (settled rfl)

end Run

end StreamDispatch
