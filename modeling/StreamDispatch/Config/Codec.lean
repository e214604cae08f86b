import StreamDispatch.Config.Settings
import StreamDispatch.Json.Document

set_option autoImplicit false

/-! # Configurations in documents

The fields under which the settings stand in a document, in the order in which they are declared,
and the configuration as JSON. -/

namespace StreamDispatch

open Decode (Document Reader Record)

variable {σ : Type} [Document σ]

def StreamSettings.record : Record σ StreamSettings :=
  let default := StreamSettings.named ""
  StreamSettings.mk <$> .required "stream_name" (Decode.text "a string")
    <*> .optional "consumer_group" default.consumerGroup (Decode.text "a string")
    <*> .optional "max_batch_size" default.maxBatchSize (Decode.uint64 "usize")
    <*> .optional "prefetch_count" default.prefetchCount (Decode.uint64 "usize")
    <*> .optional "receive_timeout_ms" default.receiveTimeoutMs (Decode.uint64 "u64")
    <*> .optional "max_concurrency_per_processor" default.maxConcurrency (Decode.uint64 "usize")

def BreakerSettings.record : Record σ BreakerSettings :=
  BreakerSettings.mk <$> .optional "warning_level" default.warningLevel Decode.int64
    <*> .optional "trip_level" default.tripLevel Decode.int64
    <*> .optional "stall_interval_ms" default.stallIntervalMs (Decode.uint64 "u64")
    <*> .optional "log_cooldown_ms" default.logCooldownMs (Decode.uint64 "u64")

def PoisonSettings.record : Record σ PoisonSettings :=
  PoisonSettings.mk <$> .optional "enabled" default.enabled Decode.bool
    <*> .optional "directory" default.directory (Decode.text "path string")

def InstrumentationSettings.record : Record σ InstrumentationSettings :=
  InstrumentationSettings.mk <$> .optional "enabled" default.enabled Decode.bool

def HandlerSettings.record : Record σ HandlerSettings :=
  HandlerSettings.mk
    <$> .optional "long_running_task_duration_ms" default.longRunningTaskMs (Decode.uint64 "u64")

namespace Config

def record : Record σ Config :=
  Config.mk <$> .required "dispatcher" (StreamSettings.record.read "struct DispatcherSettings")
    <*> .optional "circuit_breaker" .default
      (BreakerSettings.record.read "struct CircuitBreakerSettings")
    <*> .optional "poison" .default (PoisonSettings.record.read "struct PoisonSettings")
    <*> .optional "instrumentation" .default
      (InstrumentationSettings.record.read "struct InstrumentationSettings")
    <*> .optional "handlers" .default (HandlerSettings.record.read "struct HandlerSettings")

def decode : Reader σ Config := record.read "struct DispatcherConfig"

def toJson (c : Config) : Json :=
  .ofMembers
    [("dispatcher", .ofMembers
        [("stream_name", .string c.stream.streamName),
          ("consumer_group", .string c.stream.consumerGroup),
          ("max_batch_size", .integer c.stream.maxBatchSize.toNat),
          ("prefetch_count", .integer c.stream.prefetchCount.toNat),
          ("receive_timeout_ms", .integer c.stream.receiveTimeoutMs.toNat),
          ("max_concurrency_per_processor", .integer c.stream.maxConcurrency.toNat)]),
      ("circuit_breaker", .ofMembers
        [("warning_level", .integer c.breaker.warningLevel.toInt),
          ("trip_level", .integer c.breaker.tripLevel.toInt),
          ("stall_interval_ms", .integer c.breaker.stallIntervalMs.toNat),
          ("log_cooldown_ms", .integer c.breaker.logCooldownMs.toNat)]),
      ("poison", .ofMembers
        [("enabled", .bool c.poison.enabled), ("directory", .string c.poison.directory)]),
      ("instrumentation", .ofMembers [("enabled", .bool c.instrumentation.enabled)]),
      ("handlers", .ofMembers
        [("long_running_task_duration_ms", .integer c.handlers.longRunningTaskMs.toNat)])]

end Config

end StreamDispatch
