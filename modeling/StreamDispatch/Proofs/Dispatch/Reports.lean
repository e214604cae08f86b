import StreamDispatch.Proofs.Dispatch.Script
import StreamDispatch.Proofs.Dispatch.History
import StreamDispatch.Proofs.Dispatch.Timing

set_option autoImplicit false

/-! # Poison reports

What is reported of an event depends on the event, on its handler and on who wins the race between
the handler and its timeout, and on nothing else. On a timely host the race is won by whoever takes
less time. -/

namespace StreamDispatch

open Occurrence (reports calls returns)

namespace Run

variable {s : Site} {r : Run} {os : List Occurrence} {timely : Bool}

/-! ## When nothing is left to do for a message -/

/-- An event that was dispatched to no handler has been reported once. -/
theorem Life.unassigned_reports (hl : Life timely s r os) (hsink : s.dispatcher.sink.Returns)
    (hw : r.worker = .joined) {text : String} (ha : s.assigned r.event = .error text) :
    calls os = [] ∧ reports os = [s.errorReport r.event text] := by
  have hreports := hl.reports_perm hsink
  simp only [strandReports, workerReports, ha, hw, Worker.isUnfinished] at hreports
  exact ⟨hl.calls_eq_nil ha, List.perm_singleton.mp (by simpa using hreports)⟩

end Run

/-- The deeds of a message account for its event, for which a resolver chooses the handler: who was
called, and what was reported. -/
structure Site.Accounted (timely : Bool) (resolver : Resolver) (s : Site) (e : Event)
    (os : List Occurrence) : Prop where
  /-- An event whose version cannot be read is reported, and no handler is called. -/
  unreadable : ∀ error, Registration.ofHeaders e.headers = .error error →
    calls os = []
      ∧ ∃ text, reports os = [s.errorReport e ("[handler not yet resolved]: " ++ text)]
  /-- The same holds of an event whose handler breaks off before it is called. -/
  refused : ∀ registration text, Registration.ofHeaders e.headers = .ok registration →
    ((resolver.get? registration).getD .unknownType).refusal? = some text →
    calls os = [] ∧ reports os = [s.errorReport e text]
  /-- Any other event is given to its handler once; if that is too late, it goes on all the same. -/
  handled : ∀ registration h, Registration.ofHeaders e.headers = .ok registration →
    (resolver.get? registration).getD .unknownType = h → h.refusal? = none →
    calls os = [s.call e h]
      ∧ returns os = ((s.performance e h).1.map fun _ => (s.performance e h).2).toList
      ∧ ∃ late, (reports os).Perm (s.handlerReports e h late)
        ∧ ((s.performance e h).1 = none → late = true)
        ∧ (timely = true → ∀ work, (s.performance e h).1 = some work →
          (work.ticks < h.timeout.ticks → late = false)
            ∧ (h.timeout.ticks < work.ticks → late = true))

namespace Host

variable {h h₁ : Host} {timely : Bool} {d : Dispatcher} {i : Instrumentation} {σ : Nat → Host}
  {partition : String} {events : Option (List Event)} {cancelled : Bool}

end Host

end StreamDispatch
