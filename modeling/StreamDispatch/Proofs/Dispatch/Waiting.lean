import StreamDispatch.Proofs.Dispatch.Course

set_option autoImplicit false

/-! # What tasks wait for

Work can be done at once if it is prompted, and otherwise from the tick on for which it waits. A
step of a task prompts no work but that of its followers, and lets no other task wait for anything
new. -/

namespace StreamDispatch

/-! ## Prompted work -/

namespace Run

variable {s : Site} {r r' : Run} {os : List Occurrence}

/-- Whether the worker need not wait for a tick. -/
def isWorkerPrompted (r : Run) : Bool :=
  match r.worker, r.strand with
  | .ready, _ => true
  | .racing _, strand => strand.hasReturned
  | .joining, .ended _ => true
  | _, _ => false

/-- Whether the strand need not wait for a tick. -/
def isStrandPrompted (r : Run) : Bool :=
  match r.strand with
  | .ready => r.handler.isSome
  | _ => false

theorem isSome_stepWorker (s : Site) (r : Run) :
    (r.stepWorker s).isSome = (r.isWorkerPrompted || r.workerDue?.any (· ≤ s.now)) := by
  cases hw : r.worker with
  | racing deadline =>
    by_cases hs : r.strand.hasReturned = true
    · simp [stepWorker, isWorkerPrompted, hw, hs]
    · by_cases hd : deadline ≤ s.now <;>
        simp [stepWorker, isWorkerPrompted, workerDue?, hw, hs, hd]
  | joining =>
    cases hs : r.strand <;> simp [stepWorker, isWorkerPrompted, workerDue?, hw, hs]
  | reportingTimeout d | reportingFailure d =>
    by_cases hd : d.due ≤ s.now <;> simp [stepWorker, isWorkerPrompted, workerDue?, hw, hd]
  | ready | ended abnormal | joined => simp [stepWorker, isWorkerPrompted, workerDue?, hw]

theorem isSome_stepStrand (s : Site) (r : Run) :
    (r.stepStrand s).isSome = (r.isStrandPrompted || r.strandDue?.any (· ≤ s.now)) := by
  cases hs : r.strand with
  | working due outcome =>
    cases due with
    | none => simp [stepStrand, isStrandPrompted, strandDue?, hs]
    | some due =>
      by_cases hd : due ≤ s.now <;> simp [stepStrand, isStrandPrompted, strandDue?, hs, hd]
  | reportingUnknown d | reportingFault d =>
    by_cases hd : d.due ≤ s.now <;> simp [stepStrand, isStrandPrompted, strandDue?, hs, hd]
  | absent | ready | ended abnormal => simp [stepStrand, isStrandPrompted, strandDue?, hs]

/-- A handler that the worker lets run waits for no tick yet. -/
theorem WorkerStep.strandDue? (h : WorkerStep s r r' os) {due : Nat}
    (hdue : r'.strandDue? = some due) : r.strandDue? = some due := by
  cases h with
  | launched => cases hdue
  | _ => exact hdue

end Run

namespace Batch

variable {d : Dispatcher} {l : Lease} {now : Nat} {b b' : Batch} {os : List Occurrence}

/-- Whether the batch need not wait for a tick. -/
def isPrompted (width : Nat) (b : Batch) : Bool :=
  match b.phase with
  | .arriving => true
  | .stalled _ _ => b.cancelled
  | .filling => b.waiting.isEmpty || b.unfinished < width
  | .draining => (joinFirst b.runs).isSome || b.unfinished = 0
  | .ended _ _ => false

theorem isSome_step (d : Dispatcher) (l : Lease) (i : Instrumentation) (now : Nat) (b : Batch) :
    (b.step d l i now).isSome = (b.isPrompted d.width || b.due?.any (· ≤ now)) := by
  cases hp : b.phase with
  | arriving | ended result time => simp [step, isPrompted, due?, hp]
  | stalled found wake =>
    by_cases hc : b.cancelled = true
    · simp [step, stepStalled, isPrompted, hp, hc]
    · by_cases hd : wake ≤ now <;> simp [step, stepStalled, isPrompted, due?, hp, hc, hd]
  | filling =>
    cases hw : b.waiting with
    | nil => simp [step, stepFilling, isPrompted, hp, hw]
    | cons e rest =>
      by_cases hu : b.unfinished < d.width <;>
        simp [step, stepFilling, isPrompted, due?, hp, hw, hu]
  | draining =>
    cases hj : joinFirst b.runs with
    | some joined => simp [step, stepDraining, isPrompted, hp, hj]
    | none =>
      by_cases hu : b.unfinished = 0 <;> simp [step, stepDraining, isPrompted, due?, hp, hj, hu]

theorem isSome_joinFirst (runs : List Run) :
    (joinFirst runs).isSome = (runs.map (·.worker)).any fun
      | .ended _ => true
      | _ => false := by
  induction runs with
  | nil => rfl
  | cons r rest ih =>
    rw [List.map_cons, List.any_cons, ← ih, joinFirst]
    cases r.worker <;> simp

/-- Of its messages a batch looks at nothing but the workers. -/
theorem isPrompted_set_run {k : Nat} {r r' : Run} (hr : b.runs[k]? = some r)
    (hworker : r'.worker = r.worker) (width : Nat) :
    isPrompted width { b with runs := b.runs.set k r' } = b.isPrompted width := by
  have hworkers : (b.runs.set k r').map (·.worker) = b.runs.map (·.worker) :=
    map_set_run hr hworker
  have hunfinished : unfinished { b with runs := b.runs.set k r' } = b.unfinished := by
    have hcount (runs : List Run) : runs.countP (·.worker.isUnfinished)
        = (runs.map (·.worker)).countP (·.isUnfinished) := by
      rw [List.countP_map]
      rfl
    rw [unfinished, unfinished, hcount, hcount, hworkers]
  simp only [isPrompted, hunfinished, isSome_joinFirst, hworkers]

/-- A step of a batch prompts no strand, and lets no message wait for anything new. -/
theorem Step.run_waits (h : Step d l now b b' os) {k : Nat} {r' : Run}
    (hr' : b'.runs[k]? = some r') :
    (r'.isStrandPrompted = true → ∃ r, b.runs[k]? = some r ∧ r.isStrandPrompted = true)
      ∧ ∀ due, (r'.workerDue? = some due → ∃ r, b.runs[k]? = some r ∧ r.workerDue? = some due)
        ∧ (r'.strandDue? = some due → ∃ r, b.runs[k]? = some r ∧ r.strandDue? = some due) := by
  rcases h.run_origin hr' with ⟨r, hr⟩ | ⟨e, rfl⟩
  · rcases h.run_cases hr with hkept | ⟨abnormal, hw, hnoted⟩
    · obtain rfl := Option.some.inj (hkept.symm.trans hr')
      exact ⟨fun hp => ⟨r, hr, hp⟩, fun due => ⟨fun hd => ⟨r, hr, hd⟩, fun hd => ⟨r, hr, hd⟩⟩⟩
    · obtain rfl := Option.some.inj (hnoted.symm.trans hr')
      exact ⟨fun hp => ⟨r, hr, hp⟩, fun due => ⟨nofun, fun hd => ⟨r, hr, hd⟩⟩⟩
  · exact ⟨nofun, fun due => ⟨nofun, nofun⟩⟩

end Batch

namespace Host

variable {h h' : Host} {timely : Bool} {task other : Task}

/-- Whether a task has work to do and need not wait for a tick. -/
def isPrompted (h : Host) : Task → Bool
  | .batch n => (h.batches[n]?).any (·.isPrompted h.dispatcher.width)
  | .worker t => (h.run? t).any (·.isWorkerPrompted)
  | .strand t => (h.run? t).any (·.isStrandPrompted)
  | .canceller _ => false

theorem due?_worker (h : Host) (t : Ticket) :
    h.due? (.worker t) = (h.run? t).bind (·.workerDue?) :=
  (Option.bind_assoc ..).symm

theorem due?_strand (h : Host) (t : Ticket) :
    h.due? (.strand t) = (h.run? t).bind (·.strandDue?) :=
  (Option.bind_assoc ..).symm

/-- Work is due if it is prompted, or if its tick has come. -/
theorem Sound.isSome_step (hs : Sound timely h) (hwork : task.isWork = true) :
    (h.step task).isSome = (h.isPrompted task || (h.due? task).any (· ≤ h.now)) := by
  cases task with
  | batch n =>
    cases hb : h.batches[n]? with
    | none => simp [Host.step, stepBatch, isPrompted, due?, hb]
    | some b =>
      obtain ⟨l, hl⟩ := hs.exists_lease hb
      have hstep := b.isSome_step h.dispatcher l h.instrumentation h.now
      simp only [Host.step, stepBatch, isPrompted, due?, hb, hl, bind, pure, Option.bind_some,
        Option.any_some, ← hstep]
      cases b.step .. <;> rfl
  | worker t =>
    rw [due?_worker]
    cases hr : h.run? t with
    | none => simp [Host.step, stepRun_eq_none hr, isPrompted, hr]
    | some r =>
      rw [Host.step, hs.isSome_stepRun hr, Run.isSome_stepWorker, isPrompted, hr, Option.any_some,
        Option.bind_some]
      rfl
  | strand t =>
    rw [due?_strand]
    cases hr : h.run? t with
    | none => simp [Host.step, stepRun_eq_none hr, isPrompted, hr]
    | some r =>
      rw [Host.step, hs.isSome_stepRun hr, Run.isSome_stepStrand, isPrompted, hr, Option.any_some,
        Option.bind_some]
      rfl
  | canceller n => cases hwork

/-! ## Steps leave other tasks alone -/

/-- A step of a task leaves another one alone: it prompts that only as its follower, and does not
let it wait for anything new. -/
structure Spares (h h' : Host) (task other : Task) : Prop where
  prompted : h'.isPrompted other = true → h.isPrompted other = true ∨ other ∈ h'.followers task
  due : ∀ due, h'.due? other = some due → h.due? other = some due

theorem spares_batch {n : Nat} (hdispatcher : h'.dispatcher = h.dispatcher)
    (hb : h'.batches[n]? = h.batches[n]?) : Spares h h' task (.batch n) where
  prompted hp := by
    simp only [isPrompted, hb, hdispatcher] at hp
    exact .inl hp
  due due hd := by
    simp only [due?, hb] at hd
    exact hd

/-- A batch that changes waits for nothing new if it is in the same phase. -/
theorem spares_batch_of_phase {n : Nat} {b b' : Batch} (hb : h.batches[n]? = some b)
    (hbatches : h'.batches = h.batches.set n b') (hphase : b'.phase = b.phase)
    (hprompted : (∀ width, b'.isPrompted width = b.isPrompted width)
        ∧ h'.dispatcher = h.dispatcher ∨ .batch n ∈ h'.followers task) :
    Spares h h' task (.batch n) := by
  obtain ⟨hlt, -⟩ := List.getElem?_eq_some_iff.mp hb
  have hb' : h'.batches[n]? = some b' := by rw [hbatches, List.getElem?_set_self hlt]
  constructor
  · intro hp
    rcases hprompted with ⟨hsame, hdispatcher⟩ | hfollower
    · left
      rw [isPrompted, hb', Option.any_some, hsame, hdispatcher] at hp
      rwa [isPrompted, hb, Option.any_some]
    · exact .inr hfollower
  · intro due hd
    have hdue : b'.due? = b.due? := by rw [Batch.due?, Batch.due?, hphase]
    simp only [due?, hb', bind, Option.bind_some, hdue] at hd
    simpa only [due?, hb, bind, Option.bind_some] using hd

theorem spares_worker {t : Ticket}
    (hprompted : ∀ r', h'.run? t = some r' → .worker t ∈ h'.followers task)
    (hdue : ∀ r' due, h'.run? t = some r' → r'.workerDue? = some due →
      ∃ r, h.run? t = some r ∧ r.workerDue? = some due) : Spares h h' task (.worker t) where
  prompted hp := by
    obtain ⟨r', hr', -⟩ := (Option.any_eq_true ..).mp hp
    exact .inr (hprompted r' hr')
  due due hd := by
    rw [due?_worker, Option.bind_eq_some_iff] at hd ⊢
    obtain ⟨r', hr', hd⟩ := hd
    exact hdue r' due hr' hd

theorem spares_strand {t : Ticket}
    (hprompted : ∀ r', h'.run? t = some r' → r'.isStrandPrompted = true →
      (∃ r, h.run? t = some r ∧ r.isStrandPrompted = true) ∨ .strand t ∈ h'.followers task)
    (hdue : ∀ r' due, h'.run? t = some r' → r'.strandDue? = some due →
      ∃ r, h.run? t = some r ∧ r.strandDue? = some due) : Spares h h' task (.strand t) where
  prompted hp := by
    obtain ⟨r', hr', hp⟩ := (Option.any_eq_true ..).mp hp
    rw [isPrompted, Option.any_eq_true]
    exact hprompted r' hr' hp
  due due hd := by
    rw [due?_strand, Option.bind_eq_some_iff] at hd ⊢
    obtain ⟨r', hr', hd⟩ := hd
    exact hdue r' due hr' hd

/-- A message that stays as it is is left alone. -/
theorem spares_of_run?_eq {t : Ticket} (hr : h'.run? t = h.run? t)
    (hother : other = .worker t ∨ other = .strand t) : Spares h h' task other := by
  constructor
  · intro hp
    left
    rcases hother with rfl | rfl
    · rwa [isPrompted, hr] at hp
    · rwa [isPrompted, hr] at hp
  · intro due hd
    rcases hother with rfl | rfl
    · rwa [due?_worker, hr, ← due?_worker] at hd
    · rwa [due?_strand, hr, ← due?_strand] at hd

/-- A batch prompts its workers. -/
theorem spares_of_stepBatch {n : Nat} (hstep : h.stepBatch n = some h') (hne : other ≠ .batch n)
    (hwork : other.isWork = true) : Spares h h' (.batch n) other := by
  have hc : Change false h h' (.batch n) := change_stepBatch hstep
  cases hc with
  | @batch _ b b' l os hb step hbatches _ _ shows =>
    have hrun := run?_of_set hb hbatches
    -- What a message of the batch waits for afterwards, it waited for before.
    have hwaits (t : Ticket) (ht : t.batch = n) (r' : Run) (hr' : h'.run? t = some r') :=
      step.run_waits (by rwa [hrun, if_pos ht] at hr')
    have hbefore (t : Ticket) (ht : t.batch = n) :=
      run?_of_batch (ht ▸ hb : h.batches[t.batch]? = _)
    cases other with
    | batch m =>
      have hm : n ≠ m := fun hm => hne (congrArg Task.batch hm.symm)
      refine spares_batch shows.dispatcher_eq ?_
      rw [hbatches, List.getElem?_set_ne hm]
    | worker t =>
      by_cases ht : t.batch = n
      · apply spares_worker
        · -- Every worker of the batch follows it, also one that it has just set off.
          intro r' hr'
          obtain ⟨b₁, hb₁, hr'⟩ := run?_eq_some.mp hr'
          obtain ⟨hlt, -⟩ := List.getElem?_eq_some_iff.mp hr'
          rw [ht] at hb₁
          simp only [followers, hb₁, Option.map_some, Option.getD_some, List.mem_map,
            List.mem_range]
          exact ⟨t.index, hlt, by rw [← ht]⟩
        · intro r' due hr' hd
          rw [hbefore t ht]
          exact ((hwaits t ht r' hr').2 due).1 hd
      · exact spares_of_run?_eq (by rw [hrun, if_neg ht]) (.inl rfl)
    | strand t =>
      by_cases ht : t.batch = n
      · apply spares_strand
        · intro r' hr' hp
          rw [hbefore t ht]
          exact .inl ((hwaits t ht r' hr').1 hp)
        · intro r' due hr' hd
          rw [hbefore t ht]
          exact ((hwaits t ht r' hr').2 due).2 hd
      · exact spares_of_run?_eq (by rw [hrun, if_neg ht]) (.inr rfl)
    | canceller m => cases hwork

section Message

variable {t : Ticket} {b : Batch} {r r' : Run}

theorem exists_of_stepRun {step : Site → Run → Option (Run × List Occurrence)}
    (hstep : h.stepRun t step = some h') : ∃ b r r' os, h.batches[t.batch]? = some b
      ∧ b.runs[t.index]? = some r ∧ step (h.site t) r = some (r', os)
      ∧ h'.batches = h.batches.set t.batch { b with runs := b.runs.set t.index r' }
      ∧ h'.dispatcher = h.dispatcher ∧ h'.now = h.now := by
  obtain ⟨b, l, r, r', os, hb, hl, hr, hrun, rfl⟩ := stepRun_eq_some hstep
  exact ⟨b, r, r', os, hb, hr, hrun, rfl, rfl, rfl⟩

/-- A message that changes has to do with no tasks but its own and its batch. -/
theorem spares_of_set_run (hb : h.batches[t.batch]? = some b) (hr : b.runs[t.index]? = some r)
    (hbatches : h'.batches = h.batches.set t.batch { b with runs := b.runs.set t.index r' })
    (hdispatcher : h'.dispatcher = h.dispatcher)
    (hbatch : r'.worker = r.worker ∨ .batch t.batch ∈ h'.followers task)
    (hworker : .worker t ≠ task → Spares h h' task (.worker t))
    (hstrand : .strand t ≠ task → Spares h h' task (.strand t))
    (hne : other ≠ task) (hwork : other.isWork = true) : Spares h h' task other := by
  have hrun := run?_of_set_run hb hr hbatches
  cases other with
  | batch n =>
    by_cases hn : t.batch = n
    · subst hn
      refine spares_batch_of_phase hb hbatches rfl (hbatch.imp_left fun hsame => ?_)
      exact ⟨Batch.isPrompted_set_run hr hsame, hdispatcher⟩
    · refine spares_batch hdispatcher ?_
      rw [hbatches, List.getElem?_set_ne hn]
  | worker t' =>
    by_cases ht : t' = t
    · exact ht ▸ hworker (ht ▸ hne)
    · exact spares_of_run?_eq (by rw [hrun, if_neg ht]) (.inl rfl)
  | strand t' =>
    by_cases ht : t' = t
    · exact ht ▸ hstrand (ht ▸ hne)
    · exact spares_of_run?_eq (by rw [hrun, if_neg ht]) (.inr rfl)
  | canceller n => cases hwork

/-- A worker prompts its strand and its batch. -/
theorem Sound.spares_of_worker (hs : Sound timely h) (hstep : h.step (.worker t) = some h')
    (hne : other ≠ .worker t) (hwork : other.isWork = true) :
    Spares h h' (.worker t) other := by
  obtain ⟨b, r, r', os, hb, hr, hrun, hbatches, hdispatcher, -⟩ := exists_of_stepRun hstep
  have hr₀ : h.run? t = some r := run?_eq_some.mpr ⟨b, hb, hr⟩
  have hr₁ : h'.run? t = some r' := by rw [run?_of_set_run hb hr hbatches, if_pos rfl]
  refine spares_of_set_run hb hr hbatches hdispatcher (.inr (by simp [followers])) (absurd rfl) ?_
    hne hwork
  intro _
  apply spares_strand
  · intro _ _ _
    exact .inr (by simp [followers])
  · intro r₂ due hr₂ hd
    obtain rfl := Option.some.inj (hr₁.symm.trans hr₂)
    exact ⟨r, hr₀, ((hs.stage hr₀).step_worker hrun).strandDue? hd⟩

/-- A strand prompts its worker. -/
theorem spares_of_strand (hstep : h.step (.strand t) = some h') (hne : other ≠ .strand t)
    (hwork : other.isWork = true) : Spares h h' (.strand t) other := by
  obtain ⟨b, r, r', os, hb, hr, hrun, hbatches, hdispatcher, -⟩ := exists_of_stepRun hstep
  have hr₀ : h.run? t = some r := run?_eq_some.mpr ⟨b, hb, hr⟩
  have hr₁ : h'.run? t = some r' := by rw [run?_of_set_run hb hr hbatches, if_pos rfl]
  obtain ⟨strand, rfl, -⟩ := (Run.step_strand hrun).advances
  refine spares_of_set_run hb hr hbatches hdispatcher (.inl rfl) ?_ (absurd rfl) hne hwork
  intro _
  apply spares_worker
  · intro _ _
    simp [followers]
  · intro r₂ due hr₂ hd
    obtain rfl := Option.some.inj (hr₁.symm.trans hr₂)
    exact ⟨r, hr₀, hd⟩

end Message

/-- Cancelling a batch prompts the batch. -/
theorem spares_of_cancel {n : Nat} (hstep : h.cancel? n = some h') (hwork : other.isWork = true) :
    Spares h h' (.canceller n) other := by
  obtain ⟨b, hb, -, rfl⟩ := cancel?_eq_some hstep
  cases other with
  | batch m =>
    by_cases hm : n = m
    · subst hm
      exact spares_batch_of_phase hb rfl rfl (.inr (by simp [followers]))
    · refine spares_batch rfl ?_
      rw [List.getElem?_set_ne hm]
  | worker t => exact spares_of_run?_eq (run?_of_cancelled hb rfl t) (.inl rfl)
  | strand t => exact spares_of_run?_eq (run?_of_cancelled hb rfl t) (.inr rfl)
  | canceller m => cases hwork

/-- No step takes time. -/
theorem now_of_step (hstep : h.step task = some h') : h'.now = h.now := by
  cases task with
  | batch n =>
    have hc : Change false h h' (.batch n) := change_stepBatch hstep
    cases hc with
    | batch _ _ _ hnow => exact hnow
  | worker t =>
    obtain ⟨_, _, _, _, -, -, -, -, -, hnow⟩ := exists_of_stepRun hstep
    exact hnow
  | strand t =>
    obtain ⟨_, _, _, _, -, -, -, -, -, hnow⟩ := exists_of_stepRun hstep
    exact hnow
  | canceller n =>
    obtain ⟨b, -, -, rfl⟩ := cancel?_eq_some hstep
    rfl

/-- A step of a task leaves all others alone. -/
theorem Sound.spares (hs : Sound timely h) (hstep : h.step task = some h') (hne : other ≠ task)
    (hwork : other.isWork = true) : Spares h h' task other := by
  cases task with
  | batch n => exact spares_of_stepBatch hstep hne hwork
  | worker t => exact hs.spares_of_worker hstep hne hwork
  | strand t => exact spares_of_strand hstep hne hwork
  | canceller n => exact spares_of_cancel hstep hwork

/-! ## Arrivals leave all tasks alone -/

section Arrival

variable {lease : Nat} {events : List Event} {cancelled : Bool}

theorem getElem?_accepted {n : Nat} (b : Batch) (hn : n ≠ h.batches.length) :
    (h.batches ++ [b])[n]? = h.batches[n]? := by
  rcases Nat.lt_or_gt_of_ne hn with hlt | hgt
  · exact List.getElem?_append_left hlt
  · rw [List.getElem?_eq_none (Nat.le_of_lt hgt), List.getElem?_eq_none]
    rwa [List.length_append]

/-- A batch that arrives is all that is prompted. -/
theorem isPrompted_of_accepted
    (hbatches : h'.batches = h.batches ++ [Batch.new lease events cancelled])
    (hdispatcher : h'.dispatcher = h.dispatcher) (hp : h'.isPrompted task = true) :
    h.isPrompted task = true ∨ task = .batch h.batches.length := by
  cases task with
  | batch n =>
    by_cases hn : n = h.batches.length
    · exact .inr (congrArg Task.batch hn)
    · rw [isPrompted, hbatches, hdispatcher, getElem?_accepted _ hn] at hp
      exact .inl hp
  | worker t =>
    rw [isPrompted, run?_of_accepted hbatches] at hp
    exact .inl hp
  | strand t =>
    rw [isPrompted, run?_of_accepted hbatches] at hp
    exact .inl hp
  | canceller n => cases hp

/-- A batch that arrives does not wait for a tick. -/
theorem due?_of_accepted
    (hbatches : h'.batches = h.batches ++ [Batch.new lease events cancelled]) {due : Nat}
    (hd : h'.due? task = some due) : h.due? task = some due := by
  cases task with
  | batch n =>
    by_cases hn : n = h.batches.length
    · subst hn
      simp only [due?, hbatches, List.getElem?_concat_length] at hd
      cases hd
    · simpa only [due?, hbatches, getElem?_accepted _ hn] using hd
  | worker t => rwa [due?_worker, run?_of_accepted hbatches, ← due?_worker] at hd
  | strand t => rwa [due?_strand, run?_of_accepted hbatches, ← due?_strand] at hd
  | canceller n => cases hd

end Arrival

end Host

end StreamDispatch
