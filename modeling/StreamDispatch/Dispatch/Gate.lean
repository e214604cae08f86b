import StreamDispatch.Breaker

set_option autoImplicit false

/-! # Gates

Each lease of a partition has a gate of its own, which counts the handlers at work and admits the
batches. A gate is either guarded by a load breaker, or it admits every batch and only keeps a
tally. -/

namespace StreamDispatch

/-- How the batches of a partition are admitted. -/
inductive Admission
  /-- Every batch is admitted at once. -/
  | free
  /-- A load breaker holds batches back. -/
  | guarded (config : Breaker.Config)
  deriving DecidableEq, Repr, Inhabited

/-- What a gate keeps that admits every batch. -/
structure Tally where
  /-- The number of handlers at work. -/
  level : Int
  increments : Nat
  decrements : Nat
  /-- The number of batches that were admitted. -/
  checks : Nat
  deriving DecidableEq, Repr, Inhabited

/-- The gate of a lease. -/
inductive Gate
  | free (tally : Tally)
  | guarded (breaker : Breaker)
  deriving DecidableEq, Repr

namespace Gate

def new (partition : String) : Admission → Gate
  | .free => .free ⟨0, 0, 0, 0⟩
  | .guarded config => .guarded (.new Breaker.processorRole partition config)

def newLines : Gate → List Log.Line
  | .free _ => []
  | .guarded b => [b.line .initialized]

def level : Gate → Int
  | .free t => t.level
  | .guarded b => b.level

def enter : Gate → Gate
  | .free t => .free { t with level := t.level + 1, increments := t.increments + 1 }
  | .guarded b => .guarded b.increment

def leave : Gate → Gate
  | .free t => .free { t with level := t.level - 1, decrements := t.decrements + 1 }
  | .guarded b => .guarded b.decrement

def check (g : Gate) (now : Nat) (cancelled : Bool) : Gate × Breaker.Check × List Log.Line :=
  match g with
  | .free t => (.free { t with checks := t.checks + 1 }, .passed, [])
  | .guarded b =>
    let (b, check, notices) := b.check now cancelled
    (.guarded b, check, notices.map b.line)

/-- A batch that was held back asks again. -/
def look (g : Gate) (now : Nat) (cancelled : Bool) : Gate × Breaker.Check × List Log.Line :=
  match g with
  | .free t => (.free t, .passed, [])
  | .guarded b =>
    let (b, check, notices) := b.look now cancelled
    (.guarded b, check, notices.map b.line)

/-- What is logged when a batch gives up that was held back because of a level. -/
def cancelledLines (g : Gate) (found : Int) : List Log.Line :=
  match g with
  | .free _ => []
  | .guarded b => [b.line (.stallCancelled found)]

/-! ## The level is the business of handlers alone -/

@[simp] theorem level_new (partition : String) (a : Admission) : (new partition a).level = 0 := by
  cases a <;> rfl

@[simp] theorem level_enter (g : Gate) : g.enter.level = g.level + 1 := by cases g <;> rfl

@[simp] theorem level_leave (g : Gate) : g.leave.level = g.level - 1 := by cases g <;> rfl

@[simp] theorem level_check (g : Gate) (now : Nat) (cancelled : Bool) :
    (g.check now cancelled).1.level = g.level := by
  cases g with
  | free t => rfl
  | guarded b => exact b.level_check now cancelled

@[simp] theorem level_look (g : Gate) (now : Nat) (cancelled : Bool) :
    (g.look now cancelled).1.level = g.level := by
  cases g with
  | free t => rfl
  | guarded b => exact b.level_look now cancelled

end Gate

end StreamDispatch
