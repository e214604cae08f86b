import StreamDispatch.Proofs.Dispatch.Course
import StreamDispatch.Proofs.Dispatch.History

set_option autoImplicit false

/-! # Courses led by a list of acts

`Host.led` leads a host through a list of acts and then lets only the clock go on. What is not
possible does not happen, and the clock waits for work that is due, so every list of acts leads on a
timely course. The course is fair as soon as the host is at rest at the end of the list, which can
be computed. -/

namespace StreamDispatch

namespace Host

variable {h : Host} {timely : Bool}

/-! ## Settled hosts can be told -/

/-- All work on a host. -/
def work (h : Host) : List Task :=
  (List.range h.batches.length).flatMap fun n =>
    .batch n :: (List.range ((h.batches[n]?).elim 0 (·.runs.length))).flatMap fun j =>
      [.worker ⟨n, j⟩, .strand ⟨n, j⟩]

/-- Whether no work is due. -/
def isSettled (h : Host) : Bool := h.work.all fun task => (h.step task).isNone

theorem mem_work_of_run {t : Ticket} {r : Run} (hr : h.run? t = some r) :
    .worker t ∈ h.work ∧ .strand t ∈ h.work := by
  obtain ⟨b, hb, hr⟩ := run?_eq_some.mp hr
  obtain ⟨hn, -⟩ := List.getElem?_eq_some_iff.mp hb
  obtain ⟨hj, -⟩ := List.getElem?_eq_some_iff.mp hr
  have hmem (task : Task) (htask : task = .worker t ∨ task = .strand t) : task ∈ h.work := by
    refine List.mem_flatMap.mpr ⟨t.batch, List.mem_range.mpr hn, List.mem_cons_of_mem _ ?_⟩
    refine List.mem_flatMap.mpr ⟨t.index, List.mem_range.mpr (by simpa [hb] using hj), ?_⟩
    simpa using htask
  exact ⟨hmem _ (.inl rfl), hmem _ (.inr rfl)⟩

/-- Only what is there can take a step. -/
theorem mem_work {task : Task} (hwork : task.isWork = true) (hstep : (h.step task).isSome = true) :
    task ∈ h.work := by
  cases task with
  | batch n =>
    cases hb : h.batches[n]? with
    | none => simp [step, stepBatch, hb] at hstep
    | some b =>
      obtain ⟨hn, -⟩ := List.getElem?_eq_some_iff.mp hb
      exact List.mem_flatMap.mpr ⟨n, List.mem_range.mpr hn, List.mem_cons_self⟩
  | worker t =>
    cases hr : h.run? t with
    | none => simp [step, stepRun_eq_none hr] at hstep
    | some r => exact (mem_work_of_run hr).1
  | strand t =>
    cases hr : h.run? t with
    | none => simp [step, stepRun_eq_none hr] at hstep
    | some r => exact (mem_work_of_run hr).2
  | canceller n => cases hwork

theorem settled_of_isSettled (hs : h.isSettled = true) : h.Settled := by
  intro task hwork
  cases hstep : h.step task with
  | none => rfl
  | some h' =>
    have hmem := mem_work hwork (Option.isSome_iff_exists.mpr ⟨h', hstep⟩)
    have hnone := List.all_eq_true.mp hs task hmem
    simp [hstep] at hnone

/-! ## Led courses -/

/-- The host after an act. What is not possible does not happen, and the clock waits for work that
is due. -/
def next (h : Host) : Act → Host
  | .tick => if h.isSettled then { h with now := h.now + 1 } else h
  | a => (h.act a).getD h

/-- The course on which a list of acts leads, after which only the clock goes on. -/
def led (h : Host) (acts : List Act) : Nat → Host
  | 0 => h
  | k + 1 => (h.led acts k).next ((acts[k]?).getD .tick)

theorem next_cases (h : Host) (a : Act) : h.next a = h ∨ Moves true h (h.next a) := by
  have hact (ha : a ≠ .tick) (heq : h.next a = (h.act a).getD h) :
      h.next a = h ∨ Moves true h (h.next a) := by
    rw [heq]
    cases hact : h.act a with
    | none => exact .inl rfl
    | some h' => exact .inr ⟨a, hact, fun _ htick => absurd htick ha⟩
  cases a with
  | tick =>
    simp only [next]
    split
    · next hs => exact .inr ⟨.tick, rfl, fun _ _ => settled_of_isSettled hs⟩
    · exact .inl rfl
  | _ => exact hact nofun rfl

/-- Every list of acts leads on a timely course. -/
theorem isCourse_led (h : Host) (acts : List Act) : IsCourse true (h.led acts) :=
  fun k => next_cases (h.led acts k) _

/-! ## Hosts at rest -/

/-- Whether nothing is left to do, now or later. -/
def isAtRest (h : Host) : Bool := h.batches.all (·.isAtRest)

/-- What is asked for on a led course is done if it is possible. -/
theorem led_succ {acts : List Act} {k : Nat} {task : Task} (hact : acts[k]? = some (.step task))
    (hstep : ((h.led acts k).step task).isSome = true) :
    (h.led acts k).step task = some (h.led acts (k + 1)) := by
  obtain ⟨h', hh'⟩ := Option.isSome_iff_exists.mp hstep
  have hnext : h.led acts (k + 1) = ((h.led acts k).act (.step task)).getD (h.led acts k) := by
    rw [led, hact]
    rfl
  rw [hnext, act, hh', Option.getD_some]

/-! ## A host to lead -/

/-- The only handler does its work on the first message of a batch at once, and fails on any other
message after three ticks, two more than its timeout. -/
def trialResolver : Resolver where
  table := [(⟨"", 0⟩, .plain "Trial" (.ofMillis 1) fun t _ _ _ =>
    if t.index = 0 then ⟨[], some (.ofMillis 0), .completed⟩
    else ⟨[], some (.ofMillis 3), .failed ["lost"]⟩)]

def trialDispatcher : Dispatcher where
  stream := "trial"
  maxConcurrency := 2
  admission := .free
  chooser := trialResolver
  sink := .memory (.ofMillis 0) true []

/-- The host with a lease of one partition. -/
def trial : Host := (Host.new trialDispatcher (some .zero)).openPartition "0" (.ok ())

/-- The two events of a batch. -/
def trialEvents : List Event := [Event.new "1" "a" default, Event.new "2" "a" default]

/-- The host with the batch that has just arrived. -/
def trialAccepted : Host := { trial with batches := [Batch.new 0 trialEvents false] }

/-- All the work on the batch: its checkpoint comes when the second handler has been too late, and
before that handler fails. -/
def trialActs : List Act :=
  let batch := Act.step (.batch 0)
  let worker (n : Nat) := Act.step (.worker ⟨0, n⟩)
  let strand (n : Nat) := Act.step (.strand ⟨0, n⟩)
  [batch, batch, batch, batch, worker 0, strand 0, strand 0, worker 0, worker 0, batch, worker 1,
    strand 1, .tick, worker 1, worker 1, batch, batch, .tick, .tick, strand 1, strand 1]

/-- The course of the host with the batch. -/
def trialCourse : Nat → Host := trialAccepted.led trialActs

theorem reaches_trial : Reaches timely (.new trialDispatcher (some .zero)) trial :=
  .single ⟨.openPartition "0" (.ok ()), rfl, fun _ => nofun⟩

theorem accept_trial : trial.accept "0" (some trialEvents) false = .ok trialAccepted := by
  have howned : trial.owned.get? "0" = some 0 := by decide +kernel
  simp only [accept, howned]
  rfl

theorem isCourse_trialCourse : IsCourse true trialCourse := isCourse_led trialAccepted trialActs

theorem returns_trial : trialDispatcher.sink.Returns := by
  intro ticket report message
  simp [trialDispatcher, Sink.memory]

end Host

end StreamDispatch
