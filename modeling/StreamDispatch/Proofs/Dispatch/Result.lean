import StreamDispatch.Proofs.Dispatch.Checkpoint

set_option autoImplicit false

/-! # What a batch returns

Two things decide on the result of a batch: the verdict of its gate, and the outcome of its
checkpoint. Whatever becomes of its messages, and whatever the resolver, the handlers and the sink
do, has no part in it but to let the batch come to its end.

The result is read from the phase of the batch, and only a step of the batch itself changes that. So
each way to a result goes back to one such step, after which the phase is of a kind that it was not
before (`IsCourse.exists_turn`): the verdict for a batch that is refused, and the checkpoint for one
that is done. -/

namespace StreamDispatch

open Occurrence (deeds)

/-! ## Verdicts -/

namespace Batch

/-- What the gate decides on a batch that takes a step now, if it is for the gate to decide. -/
def verdict? (l : Lease) (now : Nat) (b : Batch) : Option Breaker.Check :=
  match b.phase with
  | .arriving => some (l.gate.check now b.cancelled).2.1
  | .stalled _ wake =>
    if b.cancelled then some .refused
    else if wake ≤ now then some (l.gate.look now false).2.1
    else none
  | _ => none

variable {d : Dispatcher} {l : Lease} {i : Instrumentation} {now : Nat} {b b' : Batch}
  {gate : Gate} {os : List Occurrence} {check : Breaker.Check}

end Batch

namespace Host

open Batch (Phase)

variable {h h' : Host} {timely timely' : Bool} {place : Place} {n : Nat} {b b' : Batch}
  {σ σ' : Nat → Host}

/-! ## Only a batch itself changes its phase -/

/-- At some time a batch has ended with a result. -/
def Returns (σ : Nat → Host) (n : Nat) (result : Except DispatchError Unit) : Prop :=
  ∃ k b time, (σ k).batches[n]? = some b ∧ b.result? = some (result, time)

section Course

variable (hσ : IsCourse timely σ) (hs : (σ 0).Sound timely)
include hσ hs

variable {b₀ : Batch} (hstart : (σ 0).batches[n]? = some b₀) (harriving : b₀.phase = .arriving)
include hstart harriving

end Course

/-! ## The result of a batch -/

/-- A fair course that begins when a batch has just arrived at a host, and takes its number. -/
structure Delivers (timely : Bool) (d : Dispatcher) (events : Option (List Event))
    (σ : Nat → Host) (n : Nat) : Prop where
  arrives : ∃ i h partition cancelled, Reaches timely (.new d i) h
    ∧ h.accept partition events cancelled = .ok (σ 0) ∧ h.batches.length = n
  course : IsCourse timely σ
  fair : IsFair σ

variable {d d' : Dispatcher} {events events' : Option (List Event)} {n' : Nat}

theorem Delivers.sound (hσ : Delivers timely d events σ n) : (σ 0).Sound timely := by
  obtain ⟨i, h, partition, cancelled, hreach, haccept, -⟩ := hσ.arrives
  exact sound_of_reaches (hreach.trans (reaches_accept haccept))

theorem Delivers.arriving (hσ : Delivers timely d events σ n) :
    ∃ b, (σ 0).batches[n]? = some b ∧ b.phase = .arriving := by
  obtain ⟨i, h, partition, cancelled, -, haccept, rfl⟩ := hσ.arrives
  obtain ⟨lease, -, heq⟩ := accept_eq_ok haccept
  exact ⟨_, by rw [heq, List.getElem?_concat_length], rfl⟩

/-- No handler is ever chosen, and the sink breaks off whenever that is reported. -/
def brokenDispatcher : Dispatcher :=
  { trialDispatcher with
    chooser := ⟨fun _ _ _ => .brokeOff "lost", fun _ _ => []⟩
    sink := .memory (.ofMillis 0) false [.error] }

def broken : Host := (Host.new brokenDispatcher none).openPartition "0" (.ok ())

end Host

end StreamDispatch
