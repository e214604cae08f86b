import StreamDispatch.Breaker
import StreamDispatch.Instrumentation
import StreamDispatch.Json.Document
import StreamDispatch.Poison.Report

set_option autoImplicit false

/-! # Messages as JSON

How events and what goes with them are exchanged as JSON. A record is written as an object with all
of its fields; the body of an event is an array of bytes, and a name stands for each case of an
enumeration. -/

namespace StreamDispatch

open Decode (Reader Record)

namespace Registration

def toJson (r : Registration) : Json :=
  .ofMembers [("message_type", .string r.messageType), ("version", .integer r.version.toInt)]

def record : Record Json Registration :=
  Registration.mk <$> .required "message_type" (Decode.text "a string")
    <*> .required "version" Decode.int32

def ofJson : Reader Json Registration := record.read "struct MessageRegistration"

end Registration

namespace Event

def toJson (e : Event) : Json :=
  .ofMembers
    [("offset", .string e.offset), ("partition_key", .string e.partitionKey),
      ("body", .array (e.body.map fun b => .integer b.toNat)), ("headers", .ofTexts e.headers)]

def record : Record Json Event :=
  Event.mk <$> .required "offset" (Decode.text "a string")
    <*> .required "partition_key" (Decode.text "a string")
    <*> .required "body" (Decode.sequence Decode.uint8)
    <*> .required "headers" (fun v => (Decode.textEntries v).map Dictionary.ofList)

def ofJson : Reader Json Event := record.read "struct Event"

end Event

namespace Context

def toJson (c : Context) : Json :=
  .ofMembers
    [("stream_name", .string c.stream), ("partition_id", .string c.partition),
      ("offset", .string c.offset)]

def record : Record Json Context :=
  Context.mk <$> .required "stream_name" (Decode.text "a string")
    <*> .required "partition_id" (Decode.text "a string")
    <*> .required "offset" (Decode.text "a string")

def ofJson : Reader Json Context := record.read "struct ProcessingContext"

end Context

namespace FailureMode

def ofJson : Reader Json FailureMode := Decode.variant (all.map fun m => (m.name, m))

def toJson (m : FailureMode) : Json := .string m.name

end FailureMode

namespace Breaker.State

def ofJson : Reader Json State :=
  Decode.variant ([closed, warning, tripped].map fun s => (s.name, s))

def toJson (s : State) : Json := .string s.name

end Breaker.State

namespace Counters

/-- The totals in the words in which they are exchanged. -/
structure Snapshot where
  faulted : UInt64
  processed : UInt64
  timeouts : UInt64
  current : Int64
  deriving DecidableEq, Repr, Inhabited

def snapshot (c : Counters) : Snapshot where
  faulted := .ofNat c.faulted
  processed := .ofNat c.processed
  timeouts := .ofNat c.timeouts
  current := .ofInt c.current

def Snapshot.toJson (s : Snapshot) : Json :=
  .ofMembers
    [("total_tasks_faulted", .integer s.faulted.toNat),
      ("total_processed_messages", .integer s.processed.toNat),
      ("total_timeouts", .integer s.timeouts.toNat),
      ("current_task_count", .integer s.current.toInt)]

def Snapshot.record : Record Json Snapshot :=
  Snapshot.mk <$> .required "total_tasks_faulted" (Decode.uint64 "u64")
    <*> .required "total_processed_messages" (Decode.uint64 "u64")
    <*> .required "total_timeouts" (Decode.uint64 "u64")
    <*> .required "current_task_count" Decode.int64

def Snapshot.ofJson : Reader Json Snapshot := record.read "struct InstrumentationSnapshot"

end Counters

end StreamDispatch
