import StreamDispatch.Dispatch.Run

set_option autoImplicit false

/-! # The way of a batch

A batch asks the gate of its lease for admission, and may be held back there until it is admitted or
cancelled. Once it is admitted, its messages get a worker each, in the order in which they arrived,
as long as fewer workers than the width of the dispatcher are unfinished. When all workers have
ended, the batch asks for one checkpoint and ends. Cancelling has no effect on a batch that has been
admitted, and nothing that happens to a message has an effect on the result. -/

namespace StreamDispatch

/-- A leased partition: its gate, and what comes of its checkpoints. -/
structure Lease where
  partition : String
  gate : Gate
  /-- What comes of a checkpoint that is asked for now. -/
  checkpoint : Except CheckpointError Unit
  /-- How many checkpoints have been asked for. -/
  checkpoints : Nat

def Lease.record (l : Lease) : Occurrence → Lease
  | .entered => { l with gate := l.gate.enter }
  | .left => { l with gate := l.gate.leave }
  | .checkpointed => { l with checkpoints := l.checkpoints + 1 }
  | _ => l

/-- How far a batch has come. -/
inductive Batch.Phase
  | arriving
  /-- It is held back: the gate found the level and looks again at a tick. -/
  | stalled (found : Int) (wake : Nat)
  /-- Its messages are given to workers. -/
  | filling
  /-- All its messages have been given to workers. -/
  | draining
  | ended (result : Except DispatchError Unit) (time : Nat)

/-- A batch on its way through the dispatcher. -/
structure Batch where
  /-- The lease that delivered it. -/
  lease : Nat
  /-- The events that no worker has yet. -/
  waiting : List Event
  /-- The messages with a worker, in the order in which they arrived. -/
  runs : List Run
  cancelled : Bool
  phase : Batch.Phase

namespace Batch

def new (lease : Nat) (events : List Event) (cancelled : Bool) : Batch :=
  ⟨lease, events, [], cancelled, .arriving⟩

def count (b : Batch) : Nat := b.runs.length + b.waiting.length

/-- The number of workers under way. -/
def unfinished (b : Batch) : Nat := b.runs.countP (·.worker.isUnfinished)

/-- The number of handlers that have been dispatched and have not returned yet. -/
def inFlight (b : Batch) : Nat := b.runs.countP (·.strand.isInFlight)

/-- The result of the batch and the tick at which it ended, if it has. -/
def result? (b : Batch) : Option (Except DispatchError Unit × Nat) :=
  match b.phase with
  | .ended result time => some (result, time)
  | _ => none

/-! ## Steps -/

variable (d : Dispatcher) (l : Lease) (i : Instrumentation) (now : Nat) (b : Batch)

def admittedLine : Log.Line :=
  Log.debug "Dispatching batch"
    [("stream", d.stream), ("partition_id", l.partition), ("count", toString b.count),
      ("max_concurrency", toString d.width)]

def decided (check : Breaker.Check) : Batch × List Occurrence :=
  match check with
  | .passed => ({ b with phase := .filling }, [.logged (b.admittedLine d l)])
  | .refused => ({ b with phase := .ended (.error .cancelled) now }, [])
  | .stalled found wake => ({ b with phase := .stalled found wake }, [])

/-- The batch after a verdict of the gate, and the gate after it. -/
def judged (verdict : Gate × Breaker.Check × List Log.Line) : Batch × Gate × List Occurrence :=
  let (gate, check, lines) := verdict
  let (next, occurrences) := b.decided d l now check
  (next, gate, Occurrence.ofLines lines ++ occurrences)

/-- A step of a batch that is held back. -/
def stepStalled (found : Int) (wake : Nat) : Option (Batch × Gate × List Occurrence) :=
  if b.cancelled then
    some ({ b with phase := .ended (.error .cancelled) now }, l.gate,
      Occurrence.ofLines (l.gate.cancelledLines found))
  else if wake ≤ now then some (b.judged d l now (l.gate.look now false))
  else none

def stepFilling : Option (Batch × Gate × List Occurrence) :=
  match b.waiting with
  | [] => some ({ b with phase := .draining }, l.gate, [])
  | e :: rest =>
    if b.unfinished < d.width then
      some ({ b with waiting := rest, runs := b.runs ++ [Run.new e] }, l.gate, [.handedOut e])
    else none

/-- Takes note of the first worker that has ended since, and says whether it broke off. -/
def joinFirst : List Run → Option (List Run × Bool)
  | [] => none
  | r :: rest =>
    match r.worker with
    | .ended abnormal => some ({ r with worker := .joined } :: rest, abnormal)
    | _ => (joinFirst rest).map fun (rest, abnormal) => (r :: rest, abnormal)

/-- The line with the counters at the end of a batch, if there are counters. -/
def counterLines : List Log.Line :=
  i.toList.map fun c =>
    Log.info "📊 Dispatcher counters"
      [("stream", d.stream), ("partition_id", l.partition),
        ("processed", toString c.processed), ("faulted", toString c.faulted),
        ("timeouts", toString c.timeouts), ("in_flight", toString c.current)]

def checkpointLines : List Log.Line :=
  let line := Log.batch d.stream l.partition b.count
  let fields (e : CheckpointError) :=
    [("stream", d.stream), ("partition_id", l.partition), ("error", e.message)]
  match l.checkpoint with
  | .ok _ => [line "OK"]
  | .error e =>
    [line "ERR",
      if e.isTransient then
        Log.warn "⚠️ Checkpoint failed, a later batch will advance the cursor" (fields e)
      else Log.error "❌ Checkpoint failed" (fields e)]

/-- The result of a batch whose checkpoint has an outcome. A checkpoint that a later batch can make
up for is no error. -/
def resultOf : Except CheckpointError Unit → Except DispatchError Unit
  | .ok _ => .ok ()
  | .error e => if e.isTransient then .ok () else .error (.checkpoint e)

/-- All workers have ended: the batch asks for a checkpoint and ends. -/
def finish : Batch × Gate × List Occurrence :=
  ({ b with phase := .ended (resultOf l.checkpoint) now }, l.gate,
    Occurrence.ofLines (counterLines d l i) ++ .checkpointed
      :: Occurrence.ofLines (b.checkpointLines d l))

/-- A step of a batch whose messages have all been given to workers. -/
def stepDraining : Option (Batch × Gate × List Occurrence) :=
  match joinFirst b.runs with
  | some (runs, abnormal) =>
    some ({ b with runs }, l.gate,
      if abnormal then
        [.logged (Log.error "Worker task ended abnormally" [("partition_id", l.partition)])]
      else [])
  | none => if b.unfinished = 0 then some (b.finish d l i now) else none

/-- A step of a batch, if one is due. -/
def step : Option (Batch × Gate × List Occurrence) :=
  match b.phase with
  | .arriving => some (b.judged d l now (l.gate.check now b.cancelled))
  | .stalled found wake => b.stepStalled d l now found wake
  | .filling => b.stepFilling d l
  | .draining => b.stepDraining d l i now
  | .ended _ _ => none

/-- The tick that the batch waits for, if it does. -/
def due? : Option Nat :=
  match b.phase with
  | .stalled _ wake => some wake
  | _ => none

end Batch

end StreamDispatch
