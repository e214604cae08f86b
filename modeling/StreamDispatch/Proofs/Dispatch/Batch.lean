import Mathlib.Algebra.Order.Ring.Int
import StreamDispatch.Dispatch.Batch
import StreamDispatch.Proofs.Dispatch.Timing

set_option autoImplicit false

/-! # The life of a batch

`Batch.Step` lists the steps that a batch takes itself, and `Batch.Change` adds to them the steps
that the tasks of its messages take and its cancellation. By induction on these changes a batch is
orderly at all times: its events are handed out in the order in which they arrived, one worker for
each, and it asks for its checkpoint once, after its last worker has ended. -/

namespace StreamDispatch

open Occurrence (deeds)

/-! ## Phases -/

namespace Batch.Phase

/-- The gate has not decided on the batch yet. -/
def isPending : Phase → Bool
  | .arriving | .stalled _ _ => true
  | _ => false

/-- The batch has been refused, because it was cancelled before it was admitted. -/
def isRefused : Phase → Bool
  | .ended (.error .cancelled) _ => true
  | _ => false

/-- The gate has admitted the batch. -/
def isAdmitted (p : Phase) : Bool := !p.isPending && !p.isRefused

/-- The batch was admitted and has ended. -/
def isDone : Phase → Bool
  | .ended (.error .cancelled) _ => false
  | .ended _ _ => true
  | _ => false

theorem isDone_of_not_admitted {p : Phase} (hp : p.isAdmitted = false) : p.isDone = false := by
  cases p with
  | ended result time =>
    cases result with
    | ok _ => simp [isAdmitted, isPending, isRefused] at hp
    | error e => cases e <;> first | rfl | simp [isAdmitted, isPending, isRefused] at hp
  | _ => rfl

theorem isAdmitted_of_done {p : Phase} (hp : p.isDone = true) : p.isAdmitted = true := by
  cases ha : p.isAdmitted with
  | true => rfl
  | false => exact absurd (isDone_of_not_admitted ha) (by simp [hp])

/-- A batch that has ended without being done was refused. -/
theorem isAdmitted_of_ended {p : Phase} {result : Except DispatchError Unit} {time : Nat}
    (hp : p = ended result time) (hd : p.isDone = false) : p.isAdmitted = false := by
  subst hp
  cases result with
  | ok _ => simp [isDone] at hd
  | error e => cases e <;> first | rfl | simp [isDone] at hd

theorem isAdmitted_of_pending {p : Phase} (hp : p.isPending = true) : p.isAdmitted = false := by
  simp [isAdmitted, hp]

/-- A checkpoint never fails because of a cancellation. -/
theorem isDone_resultOf (c : Except CheckpointError Unit) (time : Nat) :
    (ended (resultOf c) time).isDone = true := by
  unfold resultOf
  split
  · rfl
  · split <;> rfl

end Batch.Phase

namespace Batch

/-! ## Steps -/

/-- One step of a batch itself: the batch afterwards, and the deeds. -/
inductive Step (d : Dispatcher) (l : Lease) (now : Nat) (b : Batch) :
    Batch → List Occurrence → Prop
  | held {found : Int} {wake : Nat} (hp : b.phase.isPending = true) :
      Step d l now b { b with phase := .stalled found wake } []
  | admitted (hp : b.phase.isPending = true) : Step d l now b { b with phase := .filling } []
  | refused (hp : b.phase.isPending = true) :
      Step d l now b { b with phase := .ended (.error .cancelled) now } []
  | handedOut {e : Event} {rest : List Event} (hp : b.phase = .filling)
      (hw : b.waiting = e :: rest) (hu : b.unfinished < d.width) :
      Step d l now b { b with waiting := rest, runs := b.runs ++ [Run.new e] } [.handedOut e]
  | filled (hp : b.phase = .filling) (hw : b.waiting = []) :
      Step d l now b { b with phase := .draining } []
  | noted {k : Nat} {r : Run} {abnormal : Bool} (hp : b.phase = .draining)
      (hr : b.runs[k]? = some r) (hw : r.worker = .ended abnormal) :
      Step d l now b { b with runs := b.runs.set k { r with worker := .joined } } []
  | finished (hp : b.phase = .draining) (hw : ∀ r ∈ b.runs, r.worker = .joined) :
      Step d l now b { b with phase := .ended (resultOf l.checkpoint) now } [.checkpointed]

variable {d : Dispatcher} {l : Lease} {i : Instrumentation} {now : Nat} {b b' : Batch}
  {gate : Gate} {os os' : List Occurrence}

/-- The worker that is taken note of has ended. -/
theorem joinFirst_eq_some {runs runs' : List Run} {abnormal : Bool}
    (h : joinFirst runs = some (runs', abnormal)) :
    ∃ k r, runs[k]? = some r ∧ r.worker = .ended abnormal ∧
      runs' = runs.set k { r with worker := .joined } := by
  induction runs generalizing runs' with
  | nil => cases h
  | cons r rest ih =>
    simp only [joinFirst] at h
    split at h
    · next hw =>
      cases h
      exact ⟨0, r, rfl, hw, rfl⟩
    · next hw =>
      obtain ⟨⟨rest', a⟩, hrest, heq⟩ := Option.map_eq_some_iff.mp h
      cases heq
      obtain ⟨k, r', hr', hw', rfl⟩ := ih hrest
      exact ⟨k + 1, r', hr', hw', rfl⟩

/-- Every worker that has ended is taken note of. -/
theorem joinFirst_eq_none {runs : List Run} (h : joinFirst runs = none) {r : Run} (hr : r ∈ runs)
    (abnormal : Bool) : r.worker ≠ .ended abnormal := by
  induction runs with
  | nil => cases hr
  | cons r' rest ih =>
    simp only [joinFirst] at h
    split at h
    · cases h
    · next hw =>
      rcases List.mem_cons.mp hr with rfl | hr
      · exact hw abnormal
      · exact ih (by simpa using h) hr

theorem worker_eq_joined {runs : List Run} (hu : runs.countP (·.worker.isUnfinished) = 0)
    (hj : joinFirst runs = none) {r : Run} (hr : r ∈ runs) : r.worker = .joined := by
  have hworker := List.countP_eq_zero.mp hu r hr
  cases hw : r.worker with
  | ended abnormal => exact absurd hw (joinFirst_eq_none hj hr abnormal)
  | joined => rfl
  | _ => simp [hw, Worker.isUnfinished] at hworker

theorem step_judged (hp : b.phase.isPending = true) {verdict : Gate × Breaker.Check × List Log.Line}
    (h : b.judged d l now verdict = (b', gate, os)) :
    Step d l now b b' (deeds os) ∧ gate = verdict.1 := by
  obtain ⟨gate', check, lines⟩ := verdict
  cases check with
  | passed =>
    cases h
    refine ⟨?_, rfl⟩
    simpa [Occurrence.isLogged] using Step.admitted hp
  | refused =>
    cases h
    refine ⟨?_, rfl⟩
    simpa using Step.refused hp
  | stalled found wake =>
    cases h
    refine ⟨?_, rfl⟩
    simpa using Step.held hp

theorem step_stepStalled {found : Int} {wake : Nat} (hp : b.phase = .stalled found wake)
    (h : b.stepStalled d l now found wake = some (b', gate, os)) :
    Step d l now b b' (deeds os) ∧ gate.level = l.gate.level := by
  have hpending : b.phase.isPending = true := by simp [Phase.isPending, hp]
  unfold stepStalled at h
  split at h
  · cases h
    refine ⟨?_, rfl⟩
    simpa using Step.refused hpending
  · split at h
    · obtain ⟨hstep, hgate⟩ := step_judged hpending (Option.some.inj h)
      exact ⟨hstep, by rw [hgate, Gate.level_look]⟩
    · cases h

theorem step_stepFilling (hp : b.phase = .filling)
    (h : b.stepFilling d l = some (b', gate, os)) :
    Step d l now b b' (deeds os) ∧ gate.level = l.gate.level := by
  unfold stepFilling at h
  split at h
  · next hw =>
    cases h
    exact ⟨.filled hp hw, rfl⟩
  · next e rest hw =>
    simp only [Option.ite_none_right_eq_some, Option.some.injEq] at h
    obtain ⟨hu, heq⟩ := h
    cases heq
    exact ⟨.handedOut hp hw hu, rfl⟩

theorem step_stepDraining (hp : b.phase = .draining)
    (h : b.stepDraining d l i now = some (b', gate, os)) :
    Step d l now b b' (deeds os) ∧ gate.level = l.gate.level := by
  unfold stepDraining at h
  split at h
  · next runs abnormal hj =>
    cases h
    obtain ⟨k, r, hr, hw, rfl⟩ := joinFirst_eq_some hj
    refine ⟨?_, rfl⟩
    cases abnormal <;> exact .noted hp hr hw
  · next hj =>
    simp only [Option.ite_none_right_eq_some, Option.some.injEq] at h
    obtain ⟨hu, heq⟩ := h
    cases heq
    refine ⟨?_, rfl⟩
    have hstep : Step d l now b _ _ := .finished hp fun r hr => worker_eq_joined hu hj hr
    simpa [Occurrence.isLogged] using hstep

/-- A step of a batch is one of those that are listed, and has no part in the level of its gate. -/
theorem step_step (h : b.step d l i now = some (b', gate, os)) :
    Step d l now b b' (deeds os) ∧ gate.level = l.gate.level := by
  unfold step at h
  split at h
  · next hp =>
    obtain ⟨hstep, hgate⟩ := step_judged (by simp [Phase.isPending, hp]) (Option.some.inj h)
    exact ⟨hstep, by rw [hgate, Gate.level_check]⟩
  · next hp => exact step_stepStalled hp h
  · next hp => exact step_stepFilling hp h
  · next hp => exact step_stepDraining hp h
  · cases h

/-! ## Changes -/

/-- One change of a batch, by a step of its own, by a step of a task of one of its messages, or
because it is cancelled. The deeds are those of the batch itself. -/
inductive Change (d : Dispatcher) (b : Batch) : Batch → List Occurrence → Prop
  | step {l : Lease} {now : Nat} {b' : Batch} {os : List Occurrence} (h : Step d l now b b' os) :
      Change d b b' os
  | worker {s : Site} {k : Nat} {r r' : Run} {os : List Occurrence} (hr : b.runs[k]? = some r)
      (hstage : Run.Stage s r) (h : Run.WorkerStep s r r' os) :
      Change d b { b with runs := b.runs.set k r' } []
  | strand {s : Site} {k : Nat} {r r' : Run} {os : List Occurrence} (hr : b.runs[k]? = some r)
      (h : Run.StrandStep s r r' os) :
      Change d b { b with runs := b.runs.set k r' } []
  | cancelled (hc : b.cancelled = false) : Change d b { b with cancelled := true } []

/-- All events of a batch, in the order in which they arrived. -/
def events (b : Batch) : List Event := b.runs.map (·.event) ++ b.waiting

/-- What does not change of a message does not change of all of them. -/
theorem map_set_run {α : Type} {f : Run → α} {runs : List Run} {k : Nat} {r r' : Run}
    (hr : runs[k]? = some r) (hf : f r' = f r) : (runs.set k r').map f = runs.map f := by
  apply List.ext_getElem?
  intro n
  simp only [List.getElem?_map, List.getElem?_set]
  split
  · next hn =>
    subst hn
    obtain ⟨hk, rfl⟩ := List.getElem?_eq_some_iff.mp hr
    simp [hk, hf]
  · rfl

/-- No event is lost, and none is added. -/
theorem Change.events_eq (h : Change d b b' os) : b'.events = b.events := by
  cases h with
  | step h =>
    cases h with
    | handedOut _ hw => simp [events, hw, Run.new]
    | noted _ hr => simp [events, map_set_run hr]
    | held | admitted | refused | filled | finished => rfl
  | worker hr _ h => simp [events, map_set_run hr h.event_eq]
  | strand hr h =>
    obtain ⟨strand, rfl, -⟩ := h.advances
    simp [events, map_set_run hr]
  | cancelled => rfl

theorem Step.lease_eq (h : Step d l now b b' os) : b'.lease = b.lease := by
  cases h <;> rfl

theorem Change.lease_eq (h : Change d b b' os) : b'.lease = b.lease := by
  cases h with
  | step h => exact h.lease_eq
  | worker | strand | cancelled => rfl

/-- A step of a batch does nothing to a message except that it takes note of the end of a worker. -/
theorem Step.run_cases (h : Step d l now b b' os) {k : Nat} {r : Run} (hr : b.runs[k]? = some r) :
    b'.runs[k]? = some r
      ∨ ∃ abnormal, r.worker = .ended abnormal
        ∧ b'.runs[k]? = some { r with worker := .joined } := by
  cases h with
  | held | admitted | refused | filled | finished => exact .inl hr
  | handedOut =>
    obtain ⟨hk, -⟩ := List.getElem?_eq_some_iff.mp hr
    exact .inl ((List.getElem?_append_left hk).trans hr)
  | @noted n r' abnormal _ hr' hw =>
    rw [List.getElem?_set]
    split
    · next hn =>
      subst hn
      obtain rfl := Option.some.inj (hr.symm.trans hr')
      obtain ⟨hk, -⟩ := List.getElem?_eq_some_iff.mp hr
      exact .inr ⟨abnormal, hw, by simp [hk]⟩
    · exact .inl hr

/-- A message that a step of a batch brings in is untouched. -/
theorem Step.run_origin (h : Step d l now b b' os) {k : Nat} {r' : Run}
    (hr' : b'.runs[k]? = some r') : (∃ r, b.runs[k]? = some r) ∨ ∃ e, r' = Run.new e := by
  cases h with
  | held | admitted | refused | filled | finished => exact .inl ⟨r', hr'⟩
  | @handedOut e =>
    rcases Nat.lt_or_ge k b.runs.length with hk | hk
    · exact .inl ⟨b.runs[k], List.getElem?_eq_getElem hk⟩
    · rw [List.getElem?_append_right hk] at hr'
      exact .inr ⟨e, List.mem_singleton.mp (List.mem_of_getElem? hr')⟩
  | noted =>
    obtain ⟨hk, -⟩ := List.getElem?_eq_some_iff.mp hr'
    rw [List.length_set] at hk
    exact .inl ⟨b.runs[k], List.getElem?_eq_getElem hk⟩

/-! ## What a batch has done -/

/-- The deeds of a batch that has come so far: every event that has a worker was handed out, in
order, and the checkpoint was asked for at the very end. -/
def history (b : Batch) : List Occurrence :=
  (b.runs.map (·.event)).map .handedOut ++ if b.phase.isDone then [.checkpointed] else []

theorem history_eq (hp : b.phase.isDone = false) :
    b.history = (b.runs.map (·.event)).map .handedOut := by
  simp [history, hp]

theorem isDone_of_pending (hp : b.phase.isPending = true) : b.phase.isDone = false :=
  Phase.isDone_of_not_admitted (Phase.isAdmitted_of_pending hp)

theorem Step.history_eq (h : Step d l now b b' os) : b'.history = b.history ++ os := by
  cases h with
  | held hp | admitted hp | refused hp =>
    rw [history_eq (isDone_of_pending hp), history_eq rfl, List.append_nil]
  | handedOut hp => simp [history, hp, Run.new, Phase.isDone]
  | filled hp => simp [history, hp, Phase.isDone]
  | noted hp hr => simp [history, map_set_run hr]
  | finished hp =>
    have hdone : b.phase.isDone = false := by simp [hp, Phase.isDone]
    simp [history, Phase.isDone_resultOf, hdone]

/-- What a batch has done follows from how far it has come. -/
theorem Change.history_eq (h : Change d b b' os) : b'.history = b.history ++ os := by
  cases h with
  | step h => exact h.history_eq
  | worker hr _ h => simp [history, map_set_run hr h.event_eq]
  | strand hr h =>
    obtain ⟨strand, rfl, -⟩ := h.advances
    simp [history, map_set_run hr]
  | cancelled => simp [history]

/-- What goes together in a batch: nothing has begun before it is admitted, nothing waits once it
drains, and no worker is under way at its end. -/
structure Orderly (b : Batch) : Prop where
  unadmitted : b.phase.isAdmitted = false → b.runs = []
  drained : b.phase = .draining ∨ b.phase.isDone = true → b.waiting = []
  joined : b.phase.isDone = true → ∀ r ∈ b.runs, r.worker = .joined

theorem Orderly.new (lease : Nat) (events : List Event) (cancelled : Bool) :
    Orderly (Batch.new lease events cancelled) where
  unadmitted _ := rfl
  drained h := by simp [Batch.new, Phase.isDone] at h
  joined h := by simp [Batch.new, Phase.isDone] at h

/-- A run may change as it likes, except for a worker that has been taken note of. -/
theorem Orderly.set_run (hb : b.Orderly) {k : Nat} {r r' : Run} (hr : b.runs[k]? = some r)
    (hw : r.worker = .joined → r'.worker = .joined) :
    Orderly { b with runs := b.runs.set k r' } where
  unadmitted h := by
    have hempty := hb.unadmitted h
    simp [hempty] at hr
  drained := hb.drained
  joined h r'' hr'' := by
    rcases List.mem_or_eq_of_mem_set hr'' with hr'' | rfl
    · exact hb.joined h r'' hr''
    · exact hw (hb.joined h r (List.mem_of_getElem? hr))

theorem Orderly.step (hb : b.Orderly) (h : Step d l now b b' os) : b'.Orderly := by
  cases h with
  | held hp | admitted hp | refused hp =>
    have hruns := hb.unadmitted (Phase.isAdmitted_of_pending hp)
    exact ⟨fun _ => hruns, by simp [Phase.isDone], by simp [Phase.isDone]⟩
  | handedOut hp hw hu =>
    exact ⟨by simp [hp, Phase.isAdmitted, Phase.isPending, Phase.isRefused],
      by simp [hp, Phase.isDone], by simp [hp, Phase.isDone]⟩
  | filled hp hw =>
    exact ⟨by simp [Phase.isAdmitted, Phase.isPending, Phase.isRefused], fun _ => hw,
      by simp [Phase.isDone]⟩
  | noted hp hr hw => exact hb.set_run hr fun _ => rfl
  | finished hp hw =>
    have hadmitted := Phase.isAdmitted_of_done (Phase.isDone_resultOf l.checkpoint now)
    exact ⟨by simp [hadmitted], fun _ => hb.drained (.inl hp), fun _ => hw⟩

/-- Every change of a batch keeps it orderly. -/
theorem Orderly.change (hb : b.Orderly) (h : Change d b b' os) : b'.Orderly := by
  cases h with
  | step h => exact hb.step h
  | worker hr _ h => exact hb.set_run hr fun hw => absurd hw h.ne_joined
  | strand hr h =>
    obtain ⟨strand, rfl, -⟩ := h.advances
    exact hb.set_run hr id
  | cancelled => exact ⟨hb.unadmitted, hb.drained, hb.joined⟩

/-! ## Work left -/

theorem exists_unfinished (hu : b.unfinished ≠ 0) :
    ∃ (k : Nat) (r : Run), b.runs[k]? = some r ∧ r.worker.isUnfinished = true := by
  obtain ⟨r, hr, hw⟩ := List.countP_pos_iff.mp (Nat.pos_of_ne_zero hu)
  obtain ⟨k, hk⟩ := List.mem_iff_getElem?.mp hr
  exact ⟨k, r, hk, hw⟩

/-- A batch that has been admitted can go on at any time, or has ended, or waits for a worker. -/
theorem goes_on (ha : b.phase.isAdmitted = true) (hd : b.phase.isDone = false) :
    (∀ d l i now, (b.step d l i now).isSome = true)
      ∨ ∃ (k : Nat) (r : Run), b.runs[k]? = some r ∧ r.worker.isUnfinished = true := by
  by_cases hu : b.unfinished = 0
  · -- The width is never zero, so without workers under way there is room for the next event.
    left
    intro d l i now
    cases hp : b.phase with
    | arriving => simp [hp, Phase.isAdmitted, Phase.isPending] at ha
    | stalled found wake => simp [hp, Phase.isAdmitted, Phase.isPending] at ha
    | filling =>
      have hwidth := d.width_pos
      cases hw : b.waiting with
      | nil => simp [step, hp, stepFilling, hw]
      | cons e rest => simp [step, hp, stepFilling, hw, hu, hwidth]
    | draining =>
      cases hj : joinFirst b.runs with
      | none => simp [step, hp, stepDraining, hj, hu]
      | some joined => simp [step, hp, stepDraining, hj]
    | ended result time =>
      rw [hp] at ha hd
      cases result with
      | ok _ => simp [Phase.isDone] at hd
      | error e =>
        cases e with
        | cancelled => simp [Phase.isAdmitted, Phase.isRefused] at ha
        | _ => simp [Phase.isDone] at hd
  · exact .inr (exists_unfinished hu)

/-- How many steps a batch has left to take itself once all its messages have ended, at most. -/
def Phase.stepsLeft : Phase → Nat
  | .arriving | .stalled _ _ => 3
  | .filling => 2
  | .draining => 1
  | .ended _ _ => 0

/-- How many steps are left at most in all tasks of a batch that has been admitted, its cancellation
counted as one. A message takes at most nine steps after it has been handed out. -/
def stepsLeft (b : Batch) : Nat :=
  10 * b.waiting.length + (b.runs.map (·.stepsLeft)).sum + b.phase.stepsLeft + (!b.cancelled).toNat

/-- Changing one summand changes a sum by as much. -/
theorem sum_map_set {α : Type} (f : α → Nat) {as : List α} {k : Nat} {a : α} (a' : α)
    (ha : as[k]? = some a) : ((as.set k a').map f).sum + f a = (as.map f).sum + f a' := by
  induction as generalizing k with
  | nil => cases ha
  | cons x xs ih =>
    cases k with
    | zero =>
      cases ha
      simp only [List.set_cons_zero, List.map_cons, List.sum_cons]
      omega
    | succ k =>
      have hxs := ih (k := k) (by simpa using ha)
      simp only [List.set_cons_succ, List.map_cons, List.sum_cons]
      omega

theorem stepsLeft_set_run {k : Nat} {r r' : Run} (hr : b.runs[k]? = some r)
    (hlt : r'.stepsLeft < r.stepsLeft) :
    ({ b with runs := b.runs.set k r' } : Batch).stepsLeft < b.stepsLeft := by
  have hsum := sum_map_set (·.stepsLeft) r' hr
  simp only [stepsLeft]
  omega

theorem Step.stepsLeft_lt (h : Step d l now b b' os) (ha : b.phase.isAdmitted = true) :
    b'.stepsLeft < b.stepsLeft := by
  cases h with
  | held hp | admitted hp | refused hp =>
    simp [Phase.isAdmitted_of_pending hp] at ha
  | handedOut hp hw =>
    simp only [stepsLeft, hw, List.length_cons, List.map_append, List.map_cons, List.map_nil,
      List.sum_append, List.sum_cons, List.sum_nil]
    have hnew (e : Event) : (Run.new e).stepsLeft = 9 := rfl
    rw [hnew]
    omega
  | filled hp => simp [stepsLeft, hp, Phase.stepsLeft]
  | noted hp hr hw =>
    refine stepsLeft_set_run hr ?_
    simp [Run.stepsLeft, hw, Worker.stepsLeft]
  | finished hp => simp [stepsLeft, hp, Phase.stepsLeft]

/-- Every change of a batch that has been admitted leaves fewer steps to be taken. -/
theorem Change.stepsLeft_lt (h : Change d b b' os) (ha : b.phase.isAdmitted = true) :
    b'.stepsLeft < b.stepsLeft := by
  cases h with
  | step h => exact h.stepsLeft_lt ha
  | worker hr hstage h => exact stepsLeft_set_run hr (h.stepsLeft_lt hstage)
  | strand hr h => exact stepsLeft_set_run hr h.stepsLeft_lt
  | cancelled hc => simp [stepsLeft, hc]

/-- A batch that has been admitted stays so. -/
theorem Change.isAdmitted (h : Change d b b' os) (ha : b.phase.isAdmitted = true) :
    b'.phase.isAdmitted = true := by
  cases h with
  | step h =>
    cases h with
    | held hp | admitted hp | refused hp => simp [Phase.isAdmitted_of_pending hp] at ha
    | handedOut | noted => exact ha
    | filled => rfl
    | finished => exact Phase.isAdmitted_of_done (Phase.isDone_resultOf ..)
  | worker | strand | cancelled => exact ha

/-- A batch that is done stays so. -/
theorem Change.isDone (h : Change d b b' os) (hd : b.phase.isDone = true) :
    b'.phase.isDone = true := by
  cases h with
  | step h =>
    cases h with
    | held hp | admitted hp | refused hp => simp [isDone_of_pending hp] at hd
    | handedOut hp | filled hp => simp [hp, Phase.isDone] at hd
    | noted => exact hd
    | finished => exact Phase.isDone_resultOf ..
  | worker | strand | cancelled => exact hd

/-! ## Rest -/

/-- Whether nothing is left to do for a batch, now or later. Its handlers may be at work for
ever. -/
def isAtRest (b : Batch) : Bool :=
  b.result?.isSome && b.runs.all fun r => !r.worker.isUnfinished && r.strand.isDone

theorem result?_eq_some_iff {result : Except DispatchError Unit} {time : Nat} :
    b.result? = some (result, time) ↔ b.phase = .ended result time := by
  unfold result?
  split
  · next hp => simp [hp]
  · next hp => exact ⟨nofun, fun h => absurd h (hp result time)⟩

theorem isAtRest_iff : b.isAtRest = true ↔ (∃ result time, b.phase = .ended result time)
    ∧ ∀ r ∈ b.runs, r.worker.isUnfinished = false ∧ r.strand.isDone = true := by
  unfold isAtRest result?
  cases b.phase <;> simp

/-- When a batch has ended, so have its workers. -/
theorem Orderly.joined_of_ended (hb : b.Orderly) {result : Except DispatchError Unit} {time : Nat}
    (hp : b.phase = .ended result time) {r : Run} (hr : r ∈ b.runs) : r.worker = .joined := by
  cases hd : b.phase.isDone with
  | true => exact hb.joined hd r hr
  | false =>
    have hempty : b.runs = [] := hb.unadmitted (Phase.isAdmitted_of_ended hp hd)
    simp [hempty] at hr

/-- Nothing happens to a batch at rest any more, except that it may be cancelled to no effect. -/
theorem Change.rest (h : Change d b b' os) (hb : b.Orderly) (hr : b.isAtRest = true) :
    b'.runs = b.runs ∧ b'.isAtRest = true := by
  obtain ⟨⟨result, time, hp⟩, hruns⟩ := isAtRest_iff.mp hr
  cases h with
  | step h => cases h <;> simp_all [Phase.isPending]
  | worker hk _ h =>
    exact absurd (hb.joined_of_ended hp (List.mem_of_getElem? hk)) h.ne_joined
  | strand hk h =>
    have hdone := (hruns _ (List.mem_of_getElem? hk)).2
    simp [h.isDone_eq_false] at hdone
  | cancelled => exact ⟨rfl, hr⟩

end Batch

end StreamDispatch
