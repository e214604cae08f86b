import StreamDispatch.Dictionary

set_option autoImplicit false

/-! # Headers of an event

The named texts that accompany an event, and the names with a meaning to the dispatcher. -/

namespace StreamDispatch

abbrev Headers := Dictionary String

namespace Headers

def messageType : String := "MessageType"

/-- The version of the type, in decimal. -/
def messageTypeVersion : String := "MessageTypeVersion"

def deviceId : String := "DeviceId"

/-- The identity of the message, added on dispatch. -/
def id : String := "Id"

/-- The offset of the event, added on dispatch. -/
def messageOffset : String := "MessageOffset"

/-- The partition key of the event, added on dispatch. -/
def partition : String := "Partition"

/-- The timeout that a message exceeded, added to the report of it. -/
def timeoutDuration : String := "timeoutDuration"

end Headers

end StreamDispatch
