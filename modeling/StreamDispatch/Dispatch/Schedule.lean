import StreamDispatch.Dispatch.Partition

set_option autoImplicit false

/-! # Schedules

A schedule decides on the order in which the tasks of a host take their steps. Tasks that may go on
wait in a queue. The first of them takes steps until none is due; it then waits for whatever it
waits for, and the next one is taken. A task that is woken joins the end of the queue. When the
queue is empty the clock leaps to the next tick that a task waits for; of several tasks that wait
for a tick, the one that began to wait first is woken first.

No step takes time, so everything that is due at a tick happens at that tick. -/

namespace StreamDispatch

/-- A task that waits for a tick. -/
structure Alarm where
  due : Nat
  task : Task
  deriving DecidableEq, Repr

/-- A host and the tasks that are to go on. -/
structure Schedule where
  host : Host
  /-- The tasks that may go on, first come, first served. -/
  queue : List Task
  /-- The tasks that wait for a tick, in the order in which they began to. -/
  alarms : List Alarm

namespace Schedule

def new (host : Host) : Schedule := ⟨host, [], []⟩

/-- Those of some tasks that may go on and are not in a queue yet. -/
def woken (h : Host) (queue : List Task) (tasks : List Task) : List Task :=
  tasks.filter fun t => !queue.contains t && (h.step t).isSome

/-- The first task in the queue takes a step, and no longer waits for a tick; or it leaves the queue
if no step is due. -/
def turn? (s : Schedule) : Option Schedule :=
  match s.queue with
  | [] => none
  | t :: rest =>
    match s.host.step t with
    | some h =>
      some ⟨h, s.queue ++ woken h s.queue (h.followers t), s.alarms.filter (·.task ≠ t)⟩
    | none =>
      let alarms := (s.host.due? t).toList.map fun due => ⟨due, t⟩
      some { s with queue := rest, alarms := s.alarms ++ alarms.filter (!s.alarms.contains ·) }

def nextDue? (s : Schedule) : Option Nat := (s.alarms.map (·.due)).min?

/-- The clock leaps to a tick and wakes the tasks that have waited for it. -/
def leap (s : Schedule) (tick : Nat) : Schedule :=
  let (due, alarms) := s.alarms.partition (·.due ≤ tick)
  ⟨{ s.host with now := tick }, s.queue ++ due.map (·.task), alarms⟩

/-- Goes on until nothing is left to do at a tick and the host is as wanted, or no task waits for a
tick within a limit. -/
def run (wanted : Host → Bool) (limit : Option Nat) : Nat → Schedule → Schedule
  | 0, s => s
  | fuel + 1, s =>
    match s.turn? with
    | some s => s.run wanted limit fuel
    | none =>
      if wanted s.host then s
      else match s.nextDue? with
        | none => s
        | some tick =>
          if limit.all (tick ≤ ·) then (s.leap tick).run wanted limit fuel else s

def settle (fuel : Nat) (s : Schedule) : Schedule := s.run (fun _ => true) none fuel

def advance (fuel ticks : Nat) (s : Schedule) : Schedule :=
  let limit := s.host.now + ticks
  let s := s.run (fun _ => false) (some limit) fuel
  { s with host := { s.host with now := limit } }

/-- Goes on until a batch has ended. -/
def await (fuel index : Nat) (s : Schedule) : Schedule :=
  s.run (fun h => (h.batches[index]?.bind (·.result?)).isSome) none fuel

/-! ## What the host is asked to do -/

/-- Delivers a batch for a partition. It may be cancelled from the start, or some ticks later. -/
def deliver (s : Schedule) (partition : String) (events : Option (List Event))
    (cancelAfter : Option Nat) : Except DispatchError Schedule := do
  let index := s.host.batches.length
  let host ← s.host.accept partition events (cancelAfter == some 0)
  let alarms := (cancelAfter.filter (0 < ·)).toList.map fun ticks =>
    ⟨s.host.now + ticks, Task.canceller index⟩
  return ⟨host, s.queue ++ [.batch index], s.alarms ++ alarms⟩

def cancel (s : Schedule) (index : Nat) : Schedule :=
  { s with queue := s.queue ++ [.canceller index] }

end Schedule

end StreamDispatch
