import StreamDispatch.Breaker
import StreamDispatch.Text.Blank
import StreamDispatch.Text.Quoted

set_option autoImplicit false

/-! # Settings of the dispatcher

A configuration has five sections. All settings but the name of the stream have defaults. A
configuration is usable when it passes `check`; the first condition that it violates, in a fixed
order, is the error. -/

namespace StreamDispatch

/-- Which stream is read and how. -/
structure StreamSettings where
  streamName : String
  consumerGroup : String
  maxBatchSize : UInt64
  prefetchCount : UInt64
  receiveTimeoutMs : UInt64
  maxConcurrency : UInt64
  deriving DecidableEq, Repr, Inhabited

/-- When the breaker of a partition warns, trips and looks again. -/
structure BreakerSettings where
  warningLevel : Int64
  tripLevel : Int64
  stallIntervalMs : UInt64
  logCooldownMs : UInt64
  deriving DecidableEq, Repr, Inhabited

/-- Whether and where poison reports are kept. -/
structure PoisonSettings where
  enabled : Bool
  directory : String
  deriving DecidableEq, Repr, Inhabited

/-- Whether messages are counted. -/
structure InstrumentationSettings where
  enabled : Bool
  deriving DecidableEq, Repr, Inhabited

/-- How the sample handlers work. -/
structure HandlerSettings where
  longRunningTaskMs : UInt64
  deriving DecidableEq, Repr, Inhabited

/-- A configuration. -/
structure Config where
  stream : StreamSettings
  breaker : BreakerSettings
  poison : PoisonSettings
  instrumentation : InstrumentationSettings
  handlers : HandlerSettings
  deriving DecidableEq, Repr, Inhabited

/-! ## Defaults -/

def StreamSettings.named (streamName : String) : StreamSettings where
  streamName
  consumerGroup := "$Default"
  maxBatchSize := 100
  prefetchCount := 300
  receiveTimeoutMs := 604800000
  maxConcurrency := 20

def BreakerSettings.default : BreakerSettings where
  warningLevel := 200
  tripLevel := 400
  stallIntervalMs := 30000
  logCooldownMs := 900000

def PoisonSettings.default : PoisonSettings := ⟨true, "poison-messages"⟩

def InstrumentationSettings.default : InstrumentationSettings := ⟨false⟩

def HandlerSettings.default : HandlerSettings := ⟨60000⟩

/-! ## Settings as lengths of time -/

def StreamSettings.receiveTimeout (s : StreamSettings) : Duration :=
  .ofMillis s.receiveTimeoutMs.toNat

def BreakerSettings.stallInterval (s : BreakerSettings) : Duration :=
  .ofMillis s.stallIntervalMs.toNat

/-- How long a log line of one kind is held back. -/
def BreakerSettings.logCooldown (s : BreakerSettings) : Duration := .ofMillis s.logCooldownMs.toNat

def HandlerSettings.longRunningTask (s : HandlerSettings) : Duration :=
  .ofMillis s.longRunningTaskMs.toNat

def BreakerSettings.toConfig (s : BreakerSettings) : Breaker.Config where
  warningLevel := s.warningLevel.toInt
  tripLevel := s.tripLevel.toInt
  stallInterval := s.stallInterval
  logCooldown := s.logCooldown

/-! ## Errors -/

/-- Why there is no usable configuration. -/
inductive ConfigError
  /-- None of the paths is a file. -/
  | fileNotFound (searched : List String)
  /-- The text of a file is not one YAML document. -/
  | malformed (path reason : String)
  /-- The document of a file is no configuration. -/
  | undecodable (path reason : String)
  | missingField (field context : String)
  | invalidValue (field value context : String)
  | unreadable (path reason : String)
  deriving DecidableEq, Repr

def ConfigError.message : ConfigError → String
  | .fileNotFound searched =>
    "Configuration file not found. Searched paths: " ++ Text.quotedList searched
  | .malformed path reason => s!"Invalid YAML in configuration file '{path}': {reason}"
  | .undecodable path reason =>
    s!"Invalid YAML in configuration file '{path}': Failed to deserialize configuration: {reason}"
  | .missingField field context =>
    s!"Missing required configuration field '{field}' in {context}"
  | .invalidValue field value context =>
    s!"Invalid value '{value}' for field '{field}': {context}"
  | .unreadable path reason => s!"Failed to read configuration file '{path}': {reason}"

/-! ## Conditions -/

namespace Config

def fileName : String := "dispatcher-config.yaml"

/-- The name under which the file is looked for next. -/
def alternativeFileName : String := "dispatcher-config.yml"

/-- Whether a configuration is usable; if not, the first condition that it violates. -/
def check (c : Config) : Except ConfigError Unit :=
  if Text.isBlankText c.stream.streamName then
    .error (.missingField "stream_name" "dispatcher configuration")
  else if c.stream.maxConcurrency = 0 then
    .error (.invalidValue "max_concurrency_per_processor" "0" "must be at least 1")
  else if c.stream.maxBatchSize = 0 then
    .error (.invalidValue "max_batch_size" "0" "must be at least 1")
  else if c.breaker.warningLevel ≤ 0 then
    .error (.invalidValue "circuit_breaker.warning_level" (toString c.breaker.warningLevel)
      "must be greater than 0")
  else if c.breaker.tripLevel ≤ c.breaker.warningLevel then
    .error (.invalidValue "circuit_breaker.trip_level" (toString c.breaker.tripLevel)
      s!"must be greater than warning_level ({c.breaker.warningLevel})")
  else if c.breaker.stallIntervalMs = 0 then
    .error (.invalidValue "circuit_breaker.stall_interval_ms" "0" "must be greater than 0")
  else if c.poison.enabled ∧ c.poison.directory = "" then
    .error (.missingField "poison.directory" "poison configuration")
  else .ok ()

end Config

end StreamDispatch
