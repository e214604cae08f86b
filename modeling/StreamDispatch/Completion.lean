import StreamDispatch.Dictionary
import StreamDispatch.Instrumentation

set_option autoImplicit false

/-! # Completion of a message

A guard stands for one handler at work. Whoever is first to finalize it takes the handler off the
breaker and the counters; later attempts do nothing. A guard that is dropped is finalized, so that
no way of ending a handler leaves it counted. -/

namespace StreamDispatch

/-- The bookkeeping of one handler. -/
structure CompletionGuard where
  finalized : Bool
  timedOut : Bool
  deriving DecidableEq, Repr, Inhabited

/-- What the handlers of a partition are counted by. -/
structure Load where
  level : Int
  counters : Counters
  deriving DecidableEq, Repr, Inhabited

namespace Load

def zero : Load := ⟨0, .zero⟩

def enter (l : Load) : Load := ⟨l.level + 1, l.counters.count .started⟩

def leave (l : Load) : Load := ⟨l.level - 1, (l.counters.count .ended).count .processed⟩

end Load

namespace CompletionGuard

def new : CompletionGuard := ⟨false, false⟩

/-- Finalizes a guard, and says whether that was the first time. -/
def finalize (g : CompletionGuard) (l : Load) : CompletionGuard × Load × Bool :=
  if g.finalized then (g, l, false) else ({ g with finalized := true }, l.leave, true)

def markTimedOut (g : CompletionGuard) : CompletionGuard := { g with timedOut := true }

def drop (g : CompletionGuard) (l : Load) : Load := (g.finalize l).2.1

end CompletionGuard

/-! ## Named guards over one load -/

/-- A collection of guards that share one load. -/
structure GuardSession where
  load : Load
  guards : Dictionary CompletionGuard

namespace GuardSession

def empty : GuardSession := ⟨.zero, .empty⟩

/-- A handler starts under a name. The guard that had the name is dropped afterwards. -/
def start (s : GuardSession) (id : String) : GuardSession :=
  let load := s.load.enter
  let load := match s.guards.get? id with
    | some old => old.drop load
    | none => load
  ⟨load, s.guards.insert id .new⟩

/-- Finalizes a guard; none if there is no guard of that name. -/
def finalize (s : GuardSession) (id : String) : GuardSession × Option Bool :=
  match s.guards.get? id with
  | none => (s, none)
  | some g =>
    let (g, load, first) := g.finalize s.load
    (⟨load, s.guards.insert id g⟩, some first)

/-- Marks a guard as timed out, if there is one of that name. -/
def markTimedOut (s : GuardSession) (id : String) : GuardSession :=
  match s.guards.get? id with
  | none => s
  | some g => { s with guards := s.guards.insert id g.markTimedOut }

/-- Drops a guard, and says whether there was one. -/
def drop (s : GuardSession) (id : String) : GuardSession × Bool :=
  match s.guards.get? id with
  | none => (s, false)
  | some g => (⟨g.drop s.load, s.guards.erase id⟩, true)

end GuardSession

end StreamDispatch
