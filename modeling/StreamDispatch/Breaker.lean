import StreamDispatch.Duration
import StreamDispatch.Log

set_option autoImplicit false

/-! # Load breaker

A breaker counts the handlers at work for one partition and holds back the intake of batches while
there are too many. Two thresholds make a hysteresis: a check stalls when it finds the level at or
above the trip level, and a stalled check is released only when it finds the level below the
warning level. A stalled check looks at the level once every stall interval, counted from its own
start, and gives up as soon as it is cancelled.

Warnings and reminders are written at most once in a cooldown; the two deadlines for that belong to
the breaker and are shared by its checks. -/

namespace StreamDispatch

/-- The thresholds and delays of a breaker. -/
structure Breaker.Config where
  warningLevel : Int
  tripLevel : Int
  /-- How long a stalled check waits before it looks again. -/
  stallInterval : Duration
  /-- How long a line of the same kind is held back. -/
  logCooldown : Duration
  deriving DecidableEq, Repr, Inhabited

/-- A breaker: whose load it counts, its configuration and its present state. -/
structure Breaker where
  role : String
  partition : String
  config : Breaker.Config
  /-- The number of handlers at work. -/
  level : Int
  /-- When the next warning may be written; at once if absent. -/
  nextWarning : Option Nat
  /-- When the next reminder of a tripped breaker may be written; at once if absent. -/
  nextReminder : Option Nat
  deriving DecidableEq, Repr, Inhabited

namespace Breaker

def processorRole : String := "processor"

/-- The three ranges of the level. -/
inductive State
  | closed
  | warning
  | tripped
  deriving DecidableEq, Repr

def State.name : State → String
  | .closed => "Closed"
  | .warning => "Warning"
  | .tripped => "Tripped"

def new (role partition : String) (config : Config) : Breaker :=
  ⟨role, partition, config, 0, none, none⟩

def Config.classify (c : Config) (level : Int) : State :=
  if level < c.warningLevel then .closed
  else if level < c.tripLevel then .warning
  else .tripped

def state (b : Breaker) : State := b.config.classify b.level

def increment (b : Breaker) : Breaker := { b with level := b.level + 1 }

def decrement (b : Breaker) : Breaker := { b with level := b.level - 1 }

/-! ## What a breaker tells -/

/-- What a breaker tells about itself and its checks; the number is the level that was found. -/
inductive Notice
  | initialized
  | closed (level : Int)
  | warningReached (level : Int)
  | tripped (level : Int)
  | stalling (level : Int)
  | stillTripped (level : Int)
  | restored (level : Int)
  | stallCancelled (level : Int)
  deriving DecidableEq, Repr

def line (b : Breaker) (n : Notice) : Log.Line :=
  let own := [("processor", b.role), ("partition_id", b.partition)]
  let warning := ("warning_level", toString b.config.warningLevel)
  let trip := ("trip_level", toString b.config.tripLevel)
  let stall := ("stall_interval_ms", toString b.config.stallInterval.millis)
  let cooldown := ("log_cooldown_ms", toString b.config.logCooldown.millis)
  let found (level : Int) := ("level", toString level)
  match n with
  | .initialized =>
    Log.info "🛡️ Circuit breaker initialized" (own ++ [warning, trip, stall, cooldown])
  | .closed level => Log.debug "Circuit breaker closed" (own ++ [found level])
  | .warningReached level =>
    Log.warn "🟡 Circuit breaker warning level reached" (own ++ [warning, found level])
  | .tripped level => Log.error "🔴 Circuit breaker tripped" (own ++ [trip, found level])
  | .stalling level =>
    Log.debug "Circuit breaker stalling intake" (own ++ [trip, found level, stall])
  | .stillTripped level => Log.error "🔴 Circuit breaker still tripped" (own ++ [trip, found level])
  | .restored level => Log.info "🟢 Circuit breaker restored" (own ++ [warning, found level])
  | .stallCancelled level => Log.info "Circuit breaker stall cancelled" (own ++ [found level])

/-! ## Checks -/

/-- How far a check has come. -/
inductive Check
  | passed
  /-- The batch is refused, because the check was cancelled. -/
  | refused
  /-- The check found the level and looks again at the given tick. -/
  | stalled (found : Int) (wake : Nat)
  deriving DecidableEq, Repr

/-- Whether a line that is held back until a deadline may be written. -/
def isDue (deadline : Option Nat) (now : Nat) : Bool := deadline.all (· ≤ now)

/-- The tick until which a line written now is held back. -/
def cooledDown (b : Breaker) (now : Nat) : Nat := now + b.config.logCooldown.ticks

/-- The tick at which a check that stalls now looks again; time passes in between. -/
def nextLook (b : Breaker) (now : Nat) : Nat := now + max 1 b.config.stallInterval.ticks

/-- A check that has found the level too high waits, unless it is cancelled already. -/
def stall (b : Breaker) (now : Nat) (cancelled : Bool) (level : Int) : Check × List Notice :=
  if cancelled then (.refused, [.stalling level, .stallCancelled level])
  else (.stalled level (b.nextLook now), [.stalling level])

/-- Starts a check. Below the trip level it passes even if it is cancelled. -/
def check (b : Breaker) (now : Nat) (cancelled : Bool) : Breaker × Check × List Notice :=
  match b.state with
  | .closed => ({ b with nextWarning := none }, .passed, [.closed b.level])
  | .warning =>
    if isDue b.nextWarning now then
      ({ b with nextWarning := some (b.cooledDown now) }, .passed, [.warningReached b.level])
    else (b, .passed, [])
  | .tripped =>
    let (check, notices) := b.stall now cancelled b.level
    ({ b with nextReminder := some (b.cooledDown now) }, check, .tripped b.level :: notices)

def look (b : Breaker) (now : Nat) (cancelled : Bool) : Breaker × Check × List Notice :=
  if b.level < b.config.warningLevel then
    ({ b with nextWarning := none, nextReminder := none }, .passed, [.restored b.level])
  else
    let (check, notices) := b.stall now cancelled b.level
    if isDue b.nextReminder now then
      ({ b with nextReminder := some (b.cooledDown now) }, check, .stillTripped b.level :: notices)
    else (b, check, notices)

/-! ## The level is the business of handlers alone -/

@[simp] theorem level_increment (b : Breaker) : b.increment.level = b.level + 1 := rfl

@[simp] theorem level_decrement (b : Breaker) : b.decrement.level = b.level - 1 := rfl

@[simp] theorem level_check (b : Breaker) (now : Nat) (cancelled : Bool) :
    (b.check now cancelled).1.level = b.level := by
  unfold check
  cases b.state with
  | closed => rfl
  | warning => simp only; split <;> rfl
  | tripped => rfl

@[simp] theorem level_look (b : Breaker) (now : Nat) (cancelled : Bool) :
    (b.look now cancelled).1.level = b.level := by
  unfold look
  split
  · rfl
  · simp only; split <;> rfl

end Breaker

end StreamDispatch
