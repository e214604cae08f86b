import StreamDispatch.Poison.Store

set_option autoImplicit false

/-! # Handing reports over

The dispatcher hands its poison reports to a sink. All that it knows of a sink is how long it takes
to hand over a report and what comes of it: the sink keeps the report, or it fails, or it breaks
off. The report counts as made at the end of that time, whatever comes of it. -/

namespace StreamDispatch

/-- What comes of handing over a report. -/
inductive Handover
  | kept
  | failed (e : PoisonError)
  /-- The sink broke off with a message. -/
  | brokeOff (message : String)
  deriving DecidableEq, Repr

/-- Where reports are handed over. -/
structure Sink where
  /-- How long it takes to hand over the report of a message. -/
  delay : Ticket → PoisonReport → Duration
  result : Ticket → PoisonReport → Handover
  /-- What is logged when it begins. -/
  lines : PoisonReport → List Log.Line

namespace Sink

/-- The sink that keeps reports in memory. It takes the same time for each, and may fail every time
or break off for reports of certain modes. -/
def memory (delay : Duration) (fails : Bool) (breaksOn : List FailureMode) : Sink where
  delay _ _ := delay
  result _ r :=
    if breaksOn.contains r.mode then .brokeOff s!"sink panicked on {r.mode.name}"
    else if fails then .failed ⟨r.context.text, "sink offline"⟩
    else .kept
  lines _ := []

/-- The sink that keeps reports in a store, each under an identifier of its own. No two reports
share a file, so what comes of a report in the tree with which the sink starts is what comes of it
later. -/
def ofStore (store : PoisonStore) (tree : FileTree) (id : Ticket → PoisonReport → String) :
    Sink where
  delay _ _ := ⟨0⟩
  result t r :=
    match (store.publish r (id t r) tree).2 with
    | .ok _ => .kept
    | .error f => .failed f.toPoisonError
  lines r := store.publishLines r

end Sink

end StreamDispatch
