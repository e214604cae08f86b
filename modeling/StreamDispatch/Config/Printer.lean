import StreamDispatch.Config.Settings
import StreamDispatch.Yaml.Printer

set_option autoImplicit false

/-! # A configuration as a document -/

namespace StreamDispatch.Config

open Yaml (Cell Sheet)

def toSheet (c : Config) : Sheet :=
  let natural (n : UInt64) : Cell := .integer n.toNat
  [("dispatcher",
      [("stream_name", .text c.stream.streamName),
        ("consumer_group", .text c.stream.consumerGroup),
        ("max_batch_size", natural c.stream.maxBatchSize),
        ("prefetch_count", natural c.stream.prefetchCount),
        ("receive_timeout_ms", natural c.stream.receiveTimeoutMs),
        ("max_concurrency_per_processor", natural c.stream.maxConcurrency)]),
    ("circuit_breaker",
      [("warning_level", .integer c.breaker.warningLevel.toInt),
        ("trip_level", .integer c.breaker.tripLevel.toInt),
        ("stall_interval_ms", natural c.breaker.stallIntervalMs),
        ("log_cooldown_ms", natural c.breaker.logCooldownMs)]),
    ("poison",
      [("enabled", .bool c.poison.enabled), ("directory", .text c.poison.directory)]),
    ("instrumentation", [("enabled", .bool c.instrumentation.enabled)]),
    ("handlers", [("long_running_task_duration_ms", natural c.handlers.longRunningTaskMs)])]

def write (c : Config) : String := c.toSheet.write

end StreamDispatch.Config
