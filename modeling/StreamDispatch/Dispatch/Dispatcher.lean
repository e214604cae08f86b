import StreamDispatch.Dispatch.Error
import StreamDispatch.Dispatch.Gate
import StreamDispatch.Dispatch.Sink
import StreamDispatch.Resolver

set_option autoImplicit false

/-! # Dispatchers

All that the partitions of a host have in common: the stream, how many messages of a batch may be
under way at once, how batches are admitted, who handles the messages, and where reports go. -/

namespace StreamDispatch

/-- What the partitions of a host have in common. -/
structure Dispatcher where
  stream : String
  /-- How many messages of a batch may be under way at once; none is taken as one. -/
  maxConcurrency : Nat
  admission : Admission
  chooser : Chooser
  sink : Sink

namespace Dispatcher

/-- How many messages of a batch are under way at most. -/
def width (d : Dispatcher) : Nat := max 1 d.maxConcurrency

theorem width_pos (d : Dispatcher) : 0 < d.width := by simp only [width]; omega

/-- The dispatcher that a configuration asks for, if the configuration is usable. -/
def ofConfig (c : Config) (resolver : Resolver) (sink : Sink) :
    Except DispatchError Dispatcher :=
  match c.check with
  | .error e => .error (.configuration e.message)
  | .ok _ => .ok {
      stream := c.stream.streamName
      maxConcurrency := c.stream.maxConcurrency.toNat
      admission := .guarded c.breaker.toConfig
      chooser := resolver
      sink }

def newLines (d : Dispatcher) : List Log.Line :=
  [Log.info "🏭 Event processor factory created"
    [("stream", d.stream), ("max_concurrency", toString d.maxConcurrency)]]

end Dispatcher

end StreamDispatch
