import StreamDispatch.Handler
import StreamDispatch.Message.Registration

set_option autoImplicit false

/-! # Sample handlers

Four handlers that show what a handler can be like: one that is just quick enough, one that is
quick, one that works for as long as it is told to, and one that always fails. -/

namespace StreamDispatch.Handler

def updateLocationMessage : String := "UpdateLocationMessage"

def updateEngineNotificationMessage : String := "UpdateEngineNotificationMessage"

def longRunningMessage : String := "LongRunningMessage"

def throwsExceptionMessage : String := "ThrowsExceptionMessage"

def updateLocation : Handler :=
  plain "UpdateLocation" (.ofMillis 300) fun _ context payload _ =>
    { lines := [Log.debug "📍 Updating vehicle location"
        [("context", context.text), ("bytes", toString payload.length)]]
      work := some (.ofMillis 250)
      outcome := .completed }

def updateEngineNotification : Handler :=
  plain "UpdateEngineNotification" (.ofMillis 100) fun _ context _ _ =>
    { lines := [Log.debug "🔧 Recording engine notification" [("context", context.text)]]
      work := some (.ofMillis 50)
      outcome := .completed }

def longRunning (duration : Duration) : Handler :=
  plain "LongRunningHandler" (.ofSeconds 1) fun _ context _ _ =>
    { lines := [Log.info "🐢 Long running handler started"
        [("context", context.text), ("duration_ms", toString duration.millis)]]
      work := some duration
      outcome := .completed }

def intentionalFailure : String := "Intentional failure for testing"

def throwsException : Handler :=
  plain "ThrowsExceptionHandler" (.ofSeconds 1) fun _ context _ _ =>
    { lines := [Log.info "Intentionally failing" [("context", context.text)]]
      work := some ⟨0⟩
      outcome := .failed [intentionalFailure] }

def samples (longRunningTask : Duration) : List (Registration × Handler) :=
  [(⟨updateLocationMessage, 1⟩, updateLocation),
    (⟨updateEngineNotificationMessage, 1⟩, updateEngineNotification),
    (⟨longRunningMessage, 1⟩, longRunning longRunningTask),
    (⟨throwsExceptionMessage, 1⟩, throwsException)]

end StreamDispatch.Handler
