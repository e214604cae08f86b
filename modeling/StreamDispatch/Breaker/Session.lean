import StreamDispatch.Breaker

set_option autoImplicit false

/-! # Many checks on one breaker

A session is a breaker, a clock and the checks that were started on it. Handlers come and go, checks
start and are cancelled, and time passes; each of these is a function of the session. A check that
stalls keeps its own rhythm. Checks that look at the level at the same tick do so in the order in
which they began to wait. -/

namespace StreamDispatch.Breaker

/-- How a check ended. -/
inductive Verdict
  | passed
  | cancelled
  deriving DecidableEq, Repr

def Verdict.message : Verdict → String
  | .passed => "ok"
  | .cancelled => "Circuit breaker check was cancelled"

/-- A check that waits: its number, the level it found last, and when it looks again. -/
structure Waiting where
  id : Nat
  found : Int
  wake : Nat
  deriving DecidableEq, Repr

/-- A check that has ended: its number, how and when. -/
structure Ended where
  id : Nat
  verdict : Verdict
  time : Nat
  deriving DecidableEq, Repr

/-- A breaker with its clock and its checks, which are numbered as they start. -/
structure Session where
  breaker : Breaker
  now : Nat
  /-- How many checks have been started. -/
  started : Nat
  /-- The checks that wait, in the order in which they began to. -/
  waiting : List Waiting
  /-- The checks that have ended, in the order in which they did. -/
  ended : List Ended
  /-- What the breaker has told, in order. -/
  notices : List Notice
  deriving DecidableEq, Repr

namespace Session

def new (role partition : String) (config : Config) : Session :=
  ⟨Breaker.new role partition config, 0, 0, [], [], [.initialized]⟩

def settle (s : Session) (id : Nat) (outcome : Breaker × Check × List Notice) : Session :=
  let (breaker, check, notices) := outcome
  let s := { s with breaker, notices := s.notices ++ notices }
  match check with
  | .passed => { s with ended := s.ended ++ [⟨id, .passed, s.now⟩] }
  | .refused => { s with ended := s.ended ++ [⟨id, .cancelled, s.now⟩] }
  | .stalled found wake => { s with waiting := s.waiting ++ [⟨id, found, wake⟩] }

/-- Starts a check, which takes the next number. -/
def start (s : Session) (cancelled : Bool) : Session :=
  { s with started := s.started + 1 }.settle s.started (s.breaker.check s.now cancelled)

def cancel (s : Session) (id : Nat) : Session :=
  let (gone, waiting) := s.waiting.partition (·.id == id)
  { s with
    waiting
    ended := s.ended ++ gone.map fun w => ⟨w.id, .cancelled, s.now⟩
    notices := s.notices ++ gone.map fun w => .stallCancelled w.found }

def increment (s : Session) : Session := { s with breaker := s.breaker.increment }

def decrement (s : Session) : Session := { s with breaker := s.breaker.decrement }

/-- Lets the checks that are due look at the level, in turn. -/
def wake (s : Session) : Session :=
  let (due, waiting) := s.waiting.partition (·.wake ≤ s.now)
  due.foldl (fun s w => s.settle w.id (s.breaker.look s.now false)) { s with waiting }

@[simp] theorem now_settle (s : Session) (id : Nat) (o : Breaker × Check × List Notice) :
    (s.settle id o).now = s.now := by
  obtain ⟨b, c, n⟩ := o
  cases c <;> rfl

@[simp] theorem now_wake (s : Session) : s.wake.now = s.now := by
  have hfold : ∀ (due : List Waiting) (s : Session),
      (due.foldl (fun s w => s.settle w.id (s.breaker.look s.now false)) s).now = s.now := by
    intro due
    induction due with
    | nil => intro s; rfl
    | cons w rest ih => intro s; rw [List.foldl_cons, ih, now_settle]
  simp only [wake, hfold]

/-- The first tick, not after a limit, at which a check looks. -/
def nextWake (s : Session) (limit : Nat) : Nat :=
  s.waiting.foldl (fun t w => min t w.wake) limit

/-- Lets time pass until a tick. Between two looks nothing happens, so the clock leaps over it. -/
def advanceTo (s : Session) (limit : Nat) : Session :=
  if s.now < limit then
    ({ s with now := max (s.now + 1) (s.nextWake limit) }.wake).advanceTo limit
  else s
termination_by limit - s.now
decreasing_by simp only [now_wake]; omega

def advance (s : Session) (ticks : Nat) : Session := s.advanceTo (s.now + ticks)

/-- The state of a check that was started: how it ended, or none while it waits. -/
def verdict? (s : Session) (id : Nat) : Option Ended := s.ended.find? (·.id == id)

end Session

end StreamDispatch.Breaker
