import StreamDispatch.Message.Registration

set_option autoImplicit false

/-! # Events and where they come from

An event of a partitioned stream, and the context that says where it was read. -/

namespace StreamDispatch

abbrev Payload := List UInt8

/-- An event of a stream. -/
structure Event where
  offset : String
  partitionKey : String
  body : Payload
  headers : Headers
  deriving DecidableEq, Inhabited

namespace Event

def new (offset partitionKey : String) (body : Payload) : Event :=
  ⟨offset, partitionKey, body, .empty⟩

/-- The event with a header, in place of the header of that name. -/
def withHeader (e : Event) (name value : String) : Event :=
  { e with headers := e.headers.insert name value }

def withMessageType (e : Event) (messageType : String) (version : Int32) : Event :=
  (e.withHeader Headers.messageType messageType).withHeader Headers.messageTypeVersion
    (toString version)

def messageId (e : Event) (stream : String) : String := s!"{stream}/{e.partitionKey}/{e.offset}"

/-- The headers with which an event is handled: its own, and its identity, offset and partition
key. -/
def correlationHeaders (e : Event) (stream : String) : Headers :=
  ((e.headers.insert Headers.id (e.messageId stream)).insert Headers.messageOffset e.offset).insert
    Headers.partition e.partitionKey

end Event

/-- Where an event was read: the stream, the partition and the offset. -/
structure Context where
  stream : String
  partition : String
  offset : String
  deriving DecidableEq, Repr, Inhabited

/-- Which message of which batch. Batches are numbered as they arrive on a host, and the messages of
a batch as they stand in it. -/
structure Ticket where
  batch : Nat
  index : Nat
  deriving DecidableEq, Repr, Inhabited

def Context.text (c : Context) : String := s!"{c.stream}/{c.partition}/{c.offset}"

end StreamDispatch
