import StreamDispatch.Config.Codec
import StreamDispatch.Message.Codec
import StreamDispatch.Proofs.Json.Exchange

set_option autoImplicit false

/-! # What is exchanged as JSON

Events, contexts, registrations, snapshots of counters and configurations are records. Each has a
list of fields with their ranges and defaults, and is exchanged without loss under it. The sections
of a configuration are records as well, so they too may be given in any form. -/

namespace StreamDispatch

open Decode (Record)
open Decode.Record (Regular)
open Json (Describes Exchanges Schema)
open Json.Schema (row)

/-! ## Messages -/

namespace Event

def jsonFields : List (Json.Field Schema) :=
  [⟨"offset", .text, none⟩, ⟨"partition_key", .text, none⟩, ⟨"body", .integers 0 255, none⟩,
    ⟨"headers", .texts, none⟩]

def jsonValues (e : Event) : List Json :=
  [.string e.offset, .string e.partitionKey, .array (e.body.map fun b => .integer b.toNat),
    .ofTexts e.headers]

theorem describes : Describes jsonFields record jsonValues where
  regular := .seq (.seq (.seq (.map (.required ..)) (.required ..)) (.required ..)) (.required ..)
  names_eq := rfl
  distinct := by decide
  assemble_eq_ok_iff {entry e} := by
    obtain ⟨offset, partitionKey, body, headers⟩ := e
    simp [record, Record.assemble_seq_eq_ok, Record.assemble_map_eq_ok, jsonFields, jsonValues,
      (Json.reads_text _).required_eq_ok_iff, Json.reads_bytes.required_eq_ok_iff,
      Json.reads_texts.required_eq_ok_iff, and_assoc]
  slots e :=
    .cons ((Json.reads_text "").slot _) (.cons ((Json.reads_text "").slot _)
      (.cons (Json.reads_bytes.slot _) (.cons (Json.reads_texts.slot _) .nil)))

end Event

namespace Context

def jsonFields : List (Json.Field Schema) :=
  [⟨"stream_name", .text, none⟩, ⟨"partition_id", .text, none⟩, ⟨"offset", .text, none⟩]

def jsonValues (c : Context) : List Json :=
  [.string c.stream, .string c.partition, .string c.offset]

theorem describes : Describes jsonFields record jsonValues where
  regular := .seq (.seq (.map (.required ..)) (.required ..)) (.required ..)
  names_eq := rfl
  distinct := by decide
  assemble_eq_ok_iff {entry c} := by
    obtain ⟨stream, partition, offset⟩ := c
    simp [record, Record.assemble_seq_eq_ok, Record.assemble_map_eq_ok, jsonFields, jsonValues,
      (Json.reads_text _).required_eq_ok_iff]
  slots _ :=
    have htext := Json.reads_text ""
    .cons (htext.slot _) (.cons (htext.slot _) (.cons (htext.slot _) .nil))

end Context

namespace Registration

def jsonFields : List (Json.Field Schema) :=
  [⟨"message_type", .text, none⟩, ⟨"version", .signed 32, none⟩]

def jsonValues (r : Registration) : List Json := [.string r.messageType, .integer r.version.toInt]

theorem describes : Describes jsonFields record jsonValues where
  regular := .seq (.map (.required ..)) (.required ..)
  names_eq := rfl
  distinct := by decide
  assemble_eq_ok_iff {entry r} := by
    obtain ⟨messageType, version⟩ := r
    simp [record, Record.assemble_seq_eq_ok, Record.assemble_map_eq_ok, jsonFields, jsonValues,
      (Json.reads_text _).required_eq_ok_iff, Json.reads_int32.required_eq_ok_iff]
  slots _ := .cons ((Json.reads_text "").slot _) (.cons (Json.reads_int32.slot _) .nil)

end Registration

namespace Counters.Snapshot

def jsonFields : List (Json.Field Schema) :=
  [⟨"total_tasks_faulted", .unsigned 64, none⟩, ⟨"total_processed_messages", .unsigned 64, none⟩,
    ⟨"total_timeouts", .unsigned 64, none⟩, ⟨"current_task_count", .signed 64, none⟩]

def jsonValues (s : Snapshot) : List Json :=
  [.integer s.faulted.toNat, .integer s.processed.toNat, .integer s.timeouts.toNat,
    .integer s.current.toInt]

theorem describes : Describes jsonFields record jsonValues where
  regular := .seq (.seq (.seq (.map (.required ..)) (.required ..)) (.required ..)) (.required ..)
  names_eq := rfl
  distinct := by decide
  assemble_eq_ok_iff {entry s} := by
    obtain ⟨faulted, processed, timeouts, current⟩ := s
    simp [record, Record.assemble_seq_eq_ok, Record.assemble_map_eq_ok, jsonFields, jsonValues,
      (Json.reads_uint64 _).required_eq_ok_iff, Json.reads_int64.required_eq_ok_iff, and_assoc]
  slots _ :=
    have hword := Json.reads_uint64 ""
    .cons (hword.slot _) (.cons (hword.slot _) (.cons (hword.slot _)
      (.cons (Json.reads_int64.slot _) .nil)))

end Counters.Snapshot

/-! ## Sections of a configuration -/

namespace StreamSettings

def jsonFields : List (Json.Field Schema) :=
  [⟨"stream_name", .text, none⟩, ⟨"consumer_group", .text, some (.string "$Default")⟩,
    ⟨"max_batch_size", .unsigned 64, some (.integer 100)⟩,
    ⟨"prefetch_count", .unsigned 64, some (.integer 300)⟩,
    ⟨"receive_timeout_ms", .unsigned 64, some (.integer 604800000)⟩,
    ⟨"max_concurrency_per_processor", .unsigned 64, some (.integer 20)⟩]

def jsonValues (s : StreamSettings) : List Json :=
  [.string s.streamName, .string s.consumerGroup, .integer s.maxBatchSize.toNat,
    .integer s.prefetchCount.toNat, .integer s.receiveTimeoutMs.toNat,
    .integer s.maxConcurrency.toNat]

theorem describes : Describes jsonFields (record (σ := Json)) jsonValues where
  regular := .seq (.seq (.seq (.seq (.seq (.map (.required ..)) (.optional ..)) (.optional ..))
    (.optional ..)) (.optional ..)) (.optional ..)
  names_eq := rfl
  distinct := by decide
  assemble_eq_ok_iff {entry s} := by
    obtain ⟨streamName, consumerGroup, maxBatchSize, prefetchCount, receiveTimeout, width⟩ := s
    simp [record, Record.assemble_seq_eq_ok, Record.assemble_map_eq_ok, jsonFields, jsonValues,
      (Json.reads_text _).required_eq_ok_iff, (Json.reads_text _).optional_eq_ok_iff,
      (Json.reads_uint64 _).optional_eq_ok_iff, StreamSettings.named, and_assoc]
  slots s :=
    have htext := Json.reads_text ""
    have hword := Json.reads_uint64 ""
    .cons (htext.slot _) (.cons (htext.slot_optional "$Default" _)
      (.cons (hword.slot_optional 100 _) (.cons (hword.slot_optional 300 _)
        (.cons (hword.slot_optional 604800000 _) (.cons (hword.slot_optional 20 _) .nil)))))

end StreamSettings

namespace BreakerSettings

def jsonFields : List (Json.Field Schema) :=
  [⟨"warning_level", .signed 64, some (.integer 200)⟩,
    ⟨"trip_level", .signed 64, some (.integer 400)⟩,
    ⟨"stall_interval_ms", .unsigned 64, some (.integer 30000)⟩,
    ⟨"log_cooldown_ms", .unsigned 64, some (.integer 900000)⟩]

def jsonValues (s : BreakerSettings) : List Json :=
  [.integer s.warningLevel.toInt, .integer s.tripLevel.toInt, .integer s.stallIntervalMs.toNat,
    .integer s.logCooldownMs.toNat]

theorem describes : Describes jsonFields (record (σ := Json)) jsonValues where
  regular := .seq (.seq (.seq (.map (.optional ..)) (.optional ..)) (.optional ..)) (.optional ..)
  names_eq := rfl
  distinct := by decide
  assemble_eq_ok_iff {entry s} := by
    obtain ⟨warningLevel, tripLevel, stallInterval, logCooldown⟩ := s
    simp [record, Record.assemble_seq_eq_ok, Record.assemble_map_eq_ok, jsonFields, jsonValues,
      Json.reads_int64.optional_eq_ok_iff, (Json.reads_uint64 _).optional_eq_ok_iff,
      BreakerSettings.default, and_assoc]
  slots s :=
    have hword := Json.reads_uint64 ""
    .cons (Json.reads_int64.slot_optional 200 _) (.cons (Json.reads_int64.slot_optional 400 _)
      (.cons (hword.slot_optional 30000 _) (.cons (hword.slot_optional 900000 _) .nil)))

end BreakerSettings

namespace PoisonSettings

def jsonFields : List (Json.Field Schema) :=
  [⟨"enabled", .truth, some (.bool true)⟩,
    ⟨"directory", .text, some (.string "poison-messages")⟩]

def jsonValues (s : PoisonSettings) : List Json := [.bool s.enabled, .string s.directory]

theorem describes : Describes jsonFields (record (σ := Json)) jsonValues where
  regular := .seq (.map (.optional ..)) (.optional ..)
  names_eq := rfl
  distinct := by decide
  assemble_eq_ok_iff {entry s} := by
    obtain ⟨enabled, directory⟩ := s
    simp [-Bool.exists_bool, record, Record.assemble_seq_eq_ok, Record.assemble_map_eq_ok,
      jsonFields, jsonValues, Json.reads_bool.optional_eq_ok_iff,
      (Json.reads_text _).optional_eq_ok_iff, PoisonSettings.default]
  slots _ := .cons (Json.reads_bool.slot_optional true _)
    (.cons ((Json.reads_text "").slot_optional "poison-messages" _) .nil)

end PoisonSettings

namespace InstrumentationSettings

def jsonFields : List (Json.Field Schema) := [⟨"enabled", .truth, some (.bool false)⟩]

def jsonValues (s : InstrumentationSettings) : List Json := [.bool s.enabled]

theorem describes : Describes jsonFields (record (σ := Json)) jsonValues where
  regular := .map (.optional ..)
  names_eq := rfl
  distinct := by decide
  assemble_eq_ok_iff {entry s} := by
    obtain ⟨enabled⟩ := s
    simp [-Bool.exists_bool, record, Record.assemble_map_eq_ok, jsonFields, jsonValues,
      Json.reads_bool.optional_eq_ok_iff, InstrumentationSettings.default]
  slots _ := .cons (Json.reads_bool.slot_optional false _) .nil

end InstrumentationSettings

namespace HandlerSettings

def jsonFields : List (Json.Field Schema) :=
  [⟨"long_running_task_duration_ms", .unsigned 64, some (.integer 60000)⟩]

def jsonValues (s : HandlerSettings) : List Json := [.integer s.longRunningTaskMs.toNat]

theorem describes : Describes jsonFields (record (σ := Json)) jsonValues where
  regular := .map (.optional ..)
  names_eq := rfl
  distinct := by decide
  assemble_eq_ok_iff {entry s} := by
    obtain ⟨longRunningTask⟩ := s
    simp [record, Record.assemble_map_eq_ok, jsonFields, jsonValues,
      (Json.reads_uint64 _).optional_eq_ok_iff, HandlerSettings.default]
  slots _ := .cons ((Json.reads_uint64 "").slot_optional 60000 _) .nil

end HandlerSettings

/-! ## Configurations -/

namespace Config

def jsonFields : List (Json.Field Schema) :=
  [⟨"dispatcher", .record StreamSettings.jsonFields, none⟩,
    ⟨"circuit_breaker", .record BreakerSettings.jsonFields,
      some (row BreakerSettings.jsonFields BreakerSettings.default.jsonValues)⟩,
    ⟨"poison", .record PoisonSettings.jsonFields,
      some (row PoisonSettings.jsonFields PoisonSettings.default.jsonValues)⟩,
    ⟨"instrumentation", .record InstrumentationSettings.jsonFields,
      some (row InstrumentationSettings.jsonFields InstrumentationSettings.default.jsonValues)⟩,
    ⟨"handlers", .record HandlerSettings.jsonFields,
      some (row HandlerSettings.jsonFields HandlerSettings.default.jsonValues)⟩]

def jsonValues (c : Config) : List Json :=
  [row StreamSettings.jsonFields c.stream.jsonValues,
    row BreakerSettings.jsonFields c.breaker.jsonValues,
    row PoisonSettings.jsonFields c.poison.jsonValues,
    row InstrumentationSettings.jsonFields c.instrumentation.jsonValues,
    row HandlerSettings.jsonFields c.handlers.jsonValues]

theorem describes : Describes jsonFields (record (σ := Json)) jsonValues where
  regular := .seq (.seq (.seq (.seq (.map (.required ..)) (.optional ..)) (.optional ..))
    (.optional ..)) (.optional ..)
  names_eq := rfl
  distinct := by decide
  assemble_eq_ok_iff {entry c} := by
    obtain ⟨stream, breaker, poison, instrumentation, handlers⟩ := c
    simp [record, Record.assemble_seq_eq_ok, Record.assemble_map_eq_ok, jsonFields, jsonValues,
      (StreamSettings.describes.reads _).required_eq_ok_iff,
      (BreakerSettings.describes.reads _).optional_eq_ok_iff,
      (PoisonSettings.describes.reads _).optional_eq_ok_iff,
      (InstrumentationSettings.describes.reads _).optional_eq_ok_iff,
      (HandlerSettings.describes.reads _).optional_eq_ok_iff, and_assoc]
  slots c :=
    .cons ((StreamSettings.describes.reads "").slot _)
      (.cons ((BreakerSettings.describes.reads "").slot_optional .default _)
        (.cons ((PoisonSettings.describes.reads "").slot_optional .default _)
          (.cons ((InstrumentationSettings.describes.reads "").slot_optional .default _)
            (.cons ((HandlerSettings.describes.reads "").slot_optional .default _) .nil))))

end Config

/-! ## All types -/

/-- Events, contexts, registrations, snapshots and configurations are exchanged without loss. -/
theorem exchanged_without_loss :
    Exchanges Event.jsonFields Event.toJson Event.ofJson
      ∧ Exchanges Context.jsonFields Context.toJson Context.ofJson
      ∧ Exchanges Registration.jsonFields Registration.toJson Registration.ofJson
      ∧ Exchanges Counters.Snapshot.jsonFields Counters.Snapshot.toJson Counters.Snapshot.ofJson
      ∧ Exchanges Config.jsonFields Config.toJson Config.decode :=
  ⟨Event.describes.exchanges _, Context.describes.exchanges _, Registration.describes.exchanges _,
    Counters.Snapshot.describes.exchanges _, Config.describes.exchanges _⟩

example : Config.decode (σ := Json) (.array [.array [.string "telemetry"],
    .object [("unknown", .null), ("trip_level", .integer 500)]])
      = .ok ⟨.named "telemetry", { BreakerSettings.default with tripLevel := 500 }, .default,
        .default, .default⟩ := by
  rfl

example : Event.ofJson (.array [.string "7", .string "car", .array [.integer 256], .object []])
    = .error (.invalidValue (.integer 256) "u8") := by
  rfl

end StreamDispatch
