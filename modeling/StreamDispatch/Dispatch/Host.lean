import StreamDispatch.Dispatch.Batch

set_option autoImplicit false

/-! # Hosts

A host owns partitions and works on the batches that are delivered for them. Its state holds every
lease that it ever took and every batch that it ever accepted; a batch keeps to the lease that owned
its partition when it arrived, whatever becomes of the partition later.

The work is divided into tasks. `Host.step` takes one step of one task, if that is due; the order in
which tasks take their steps is left open here. -/

namespace StreamDispatch

/-- The state of a host. -/
structure Host where
  dispatcher : Dispatcher
  now : Nat
  instrumentation : Instrumentation
  /-- Every lease that was taken, in the order in which they were. -/
  leases : List Lease
  /-- The partitions that are owned, with the number of the lease. -/
  owned : Dictionary Nat
  /-- Every batch that was accepted, in the order in which they were. -/
  batches : List Batch
  /-- What has happened, in order. -/
  journal : List Entry

/-- A part of the work on a host. -/
inductive Task
  | batch (index : Nat)
  | worker (ticket : Ticket)
  | strand (ticket : Ticket)
  | canceller (index : Nat)
  deriving DecidableEq, Repr

namespace Host

def new (dispatcher : Dispatcher) (instrumentation : Instrumentation) : Host :=
  ⟨dispatcher, 0, instrumentation, [], .empty, [], []⟩

/-- The host after things have happened on behalf of a lease. -/
def record (h : Host) (lease : Nat) (place : Place) (occurrences : List Occurrence) : Host :=
  { h with
    instrumentation := occurrences.foldl Instrumentation.record h.instrumentation
    leases := h.leases.modify lease fun l => occurrences.foldl Lease.record l
    journal := h.journal ++ occurrences.map fun o => ⟨h.now, place, o⟩ }

def log (h : Host) (lines : List Log.Line) : Host :=
  { h with journal := h.journal ++ lines.map fun l => ⟨h.now, .host, .logged l⟩ }

/-! ## Steps -/

def stepBatch (h : Host) (index : Nat) : Option Host := do
  let b ← h.batches[index]?
  let l ← h.leases[b.lease]?
  let (next, gate, occurrences) ← b.step h.dispatcher l h.instrumentation h.now
  let h := { h with
    batches := h.batches.set index next
    leases := h.leases.set b.lease { l with gate } }
  return h.record b.lease (.batch index) occurrences

def stepRun (h : Host) (t : Ticket) (step : Site → Run → Option (Run × List Occurrence)) :
    Option Host := do
  let b ← h.batches[t.batch]?
  let l ← h.leases[b.lease]?
  let r ← b.runs[t.index]?
  let (next, occurrences) ← step ⟨h.dispatcher, l.partition, t, h.now⟩ r
  let h := { h with batches := h.batches.set t.batch { b with runs := b.runs.set t.index next } }
  return h.record b.lease (.message t) occurrences

/-- Cancels a batch, if that is not done yet. -/
def cancel? (h : Host) (index : Nat) : Option Host := do
  let b ← h.batches[index]?
  if b.cancelled then none
  else return { h with batches := h.batches.set index { b with cancelled := true } }

/-- A step of a task, if one is due. -/
def step (h : Host) : Task → Option Host
  | .batch index => h.stepBatch index
  | .worker t => h.stepRun t fun s r => r.stepWorker s
  | .strand t => h.stepRun t fun s r => r.stepStrand s
  | .canceller index => h.cancel? index

/-- The tick that a task waits for, if it does. -/
def due? (h : Host) : Task → Option Nat
  | .batch index => do (← h.batches[index]?).due?
  | .worker t => do (← (← h.batches[t.batch]?).runs[t.index]?).workerDue?
  | .strand t => do (← (← h.batches[t.batch]?).runs[t.index]?).strandDue?
  | .canceller _ => none

/-- The tasks for which a step of a task may be what they wait for. -/
def followers (h : Host) : Task → List Task
  | .batch index =>
    let runs := (h.batches[index]?.map (·.runs)).getD []
    (List.range runs.length).map fun n => .worker ⟨index, n⟩
  | .worker t => [.strand t, .batch t.batch]
  | .strand t => [.worker t]
  | .canceller index => [.batch index]

/-! ## Dropping what is unfinished -/

/-- The handlers that have been dispatched and have not returned yet, with the number of their
lease. -/
def inFlight (h : Host) : List Nat :=
  h.batches.flatMap fun b => List.replicate b.inFlight b.lease

/-- The host after everything that is unfinished has been dropped. Each handler that has not
returned leaves its gate. -/
def abandon (h : Host) : Host :=
  h.inFlight.foldl
    (fun h lease => h.record lease .host [.left, .counted .ended, .counted .processed])
    { h with batches := [] }

end Host

end StreamDispatch
