import Mathlib.Algebra.Ring.Int.Defs
import StreamDispatch.Config.Codec
import StreamDispatch.Config.Printer
import StreamDispatch.Proofs.Decode.Scalar
import StreamDispatch.Proofs.Yaml.Tree

set_option autoImplicit false

/-! # The fields of a configuration

A configuration has fourteen fields in five sections. `Config.fields` lists them with the values
that they may hold and the value that they have if a document says nothing of them. A document of
sections is decoded as a configuration exactly when every field of the configuration holds what the
document gives to that field, or else its default (`decode_eq_ok_iff`). -/

namespace StreamDispatch

open Decode (Reader Record)
open Decode.Document (view)
open Yaml (Cell Sheet Value)

namespace Config

/-! ## Fields -/

/-- The values that a field may hold. -/
inductive Kind
  | text
  | truth
  /-- The unsigned integers of 64 bits. -/
  | natural
  /-- The signed integers of 64 bits. -/
  | integer
  deriving DecidableEq, Repr

def Kind.admits : Kind → Value → Bool
  | .text, .text _ => true
  | .truth, .bool _ => true
  | .natural, .integer n => decide (0 ≤ n ∧ n < 2 ^ 64)
  | .integer, .integer n => decide (-2 ^ 63 ≤ n ∧ n < 2 ^ 63)
  | _, _ => false

/-- A field of a section. -/
structure Field where
  section_ : String
  name : String
  kind : Kind
  /-- What the field holds if nothing is said of it. A field without a default must be given. -/
  default : Option Cell
  deriving DecidableEq, Repr

/-- The only field that must be given. -/
def streamName : Field := ⟨"dispatcher", "stream_name", .text, none⟩

def fields : List Field :=
  [streamName,
    ⟨"dispatcher", "consumer_group", .text, some (.text "$Default")⟩,
    ⟨"dispatcher", "max_batch_size", .natural, some (.integer 100)⟩,
    ⟨"dispatcher", "prefetch_count", .natural, some (.integer 300)⟩,
    ⟨"dispatcher", "receive_timeout_ms", .natural, some (.integer 604800000)⟩,
    ⟨"dispatcher", "max_concurrency_per_processor", .natural, some (.integer 20)⟩,
    ⟨"circuit_breaker", "warning_level", .integer, some (.integer 200)⟩,
    ⟨"circuit_breaker", "trip_level", .integer, some (.integer 400)⟩,
    ⟨"circuit_breaker", "stall_interval_ms", .natural, some (.integer 30000)⟩,
    ⟨"circuit_breaker", "log_cooldown_ms", .natural, some (.integer 900000)⟩,
    ⟨"poison", "enabled", .truth, some (.bool true)⟩,
    ⟨"poison", "directory", .text, some (.text "poison-messages")⟩,
    ⟨"instrumentation", "enabled", .truth, some (.bool false)⟩,
    ⟨"handlers", "long_running_task_duration_ms", .natural, some (.integer 60000)⟩]

def sectionNames : List String :=
  ["dispatcher", "circuit_breaker", "poison", "instrumentation", "handlers"]

theorem section_mem_of_mem_fields {f : Field} (hf : f ∈ fields) : f.section_ ∈ sectionNames := by
  have hall : ∀ f ∈ fields, f.section_ ∈ sectionNames := by decide +kernel
  exact hall f hf

/-- Every default is a value that its field may hold. -/
theorem kind_admits_default {f : Field} (hf : f ∈ fields) {cell : Cell}
    (hd : f.default = some cell) : f.kind.admits cell.toValue = true := by
  have hall : ∀ f ∈ fields, f.default.all (f.kind.admits ·.toValue) = true := by decide +kernel
  simpa [hd] using hall f hf

theorem eq_streamName_of_default_eq_none {f : Field} (hf : f ∈ fields) (hd : f.default = none) :
    f = streamName := by
  have hall : ∀ f ∈ fields, f.default = none → f = streamName := by decide +kernel
  exact hall f hf hd

/-- What a configuration has in a field. -/
def value? (c : Config) (f : Field) : Option Value := do
  let (_, cells) ← c.toSheet.find? (·.1 == f.section_)
  let (_, cell) ← cells.find? (·.1 == f.name)
  return cell.toValue

/-! ## Readers of fields -/

/-- A reader of a field takes exactly the values of a kind, each for what it is. It looks through
tags. -/
structure Reads {β : Type} (read : Reader Value β) (cell : β → Cell) (kind : Kind) : Prop where
  eq_ok_iff : ∀ {v : Value} {b : β}, read v = .ok b ↔ v.untagged = (cell b).toValue
  admits_iff : ∀ {v : Value}, kind.admits v = true ↔ ∃ b, v = (cell b).toValue

theorem shape_untagged : ∀ v : Value, v.untagged.shape = v.shape
  | .tagged _ v => shape_untagged v
  | .null | .bool _ | .integer _ | .float _ | .text _ | .sequence _ | .mapping _ => rfl

theorem untagged_ne_tagged (tag : String) (w : Value) : ∀ v : Value, v.untagged ≠ .tagged tag w
  | .tagged _ v => untagged_ne_tagged tag w v
  | .null | .bool _ | .integer _ | .float _ | .text _ | .sequence _ | .mapping _ => nofun

/-- The values of the shape of a cell are the value of this cell, seen through tags. -/
theorem view_eq_iff {v : Value} {cell : Cell} :
    view v = view cell.toValue ↔ v.untagged = cell.toValue := by
  have hview : view v = view v.untagged := (shape_untagged v).symm
  rw [hview]
  cases hv : v.untagged with
  | tagged tag w => exact absurd hv (untagged_ne_tagged tag w v)
  | _ => cases cell <;> simp [view, Value.shape, Cell.toValue]

theorem Reads.of_view {β : Type} {read : Reader Value β} {cell : β → Cell} {kind : Kind}
    (hread : ∀ v b, read v = .ok b ↔ view v = view (cell b).toValue)
    (hadmits : ∀ v, kind.admits v = true ↔ ∃ b, v = (cell b).toValue) : Reads read cell kind where
  eq_ok_iff := (hread _ _).trans view_eq_iff
  admits_iff := hadmits _

theorem reads_text (expected : String) : Reads (Decode.text expected) .text .text := by
  refine .of_view (fun _ _ => Decode.text_eq_ok_iff) fun v => ?_
  cases v <;> simp [Kind.admits, Cell.toValue]

theorem reads_bool : Reads Decode.bool .bool .truth := by
  refine .of_view (fun _ _ => Decode.bool_eq_ok_iff) fun v => ?_
  cases v <;> simp [Kind.admits, Cell.toValue]

theorem reads_uint64 (expected : String) :
    Reads (Decode.uint64 expected) (fun n => .integer n.toNat) .natural := by
  refine .of_view (fun _ _ => Decode.uint64_eq_ok_iff) fun v => ?_
  cases v with
  | integer n =>
    simp only [Kind.admits, decide_eq_true_eq, Cell.toValue, Value.integer.injEq,
      Decode.areWords_uint64.exists_iff]
    omega
  | _ => simp [Kind.admits, Cell.toValue]

theorem reads_int64 : Reads Decode.int64 (fun n => .integer n.toInt) .integer := by
  refine .of_view (fun _ _ => Decode.int64_eq_ok_iff) fun v => ?_
  cases v with
  | integer n =>
    simp only [Kind.admits, decide_eq_true_eq, Cell.toValue, Value.integer.injEq,
      Decode.areWords_int64.exists_iff]
    omega
  | _ => simp [Kind.admits, Cell.toValue]

theorem untagged_toValue (cell : Cell) : cell.toValue.untagged = cell.toValue := by
  cases cell <;> rfl

/-- What is read as a value is that value alone. -/
theorem Reads.toValue_inj {β : Type} {read : Reader Value β} {cell : β → Cell} {kind : Kind}
    (h : Reads read cell kind) {b b' : β} (heq : (cell b).toValue = (cell b').toValue) :
    b = b' := by
  have hb : read (cell b).toValue = .ok b := h.eq_ok_iff.mpr (untagged_toValue _)
  have hb' : read (cell b).toValue = .ok b' := h.eq_ok_iff.mpr (heq ▸ untagged_toValue _)
  exact Except.ok.inj (hb.symm.trans hb')

/-! ## Sections -/

section Sections

variable {β : Type} {read : Reader Value β} {cell : β → Cell} {kind : Kind}
  {missing : String → Decode.Error} {entry : String → Option Value} {name : String} {b : β}

/-- What a field gets: what its entry gives, seen through tags, or else its default. -/
def given (entry : String → Option Value) (name : String) (default : Option Cell) : Option Value :=
  ((entry name).map Value.untagged).or (default.map Cell.toValue)

theorem Reads.required_eq_ok_iff (h : Reads read cell kind) :
    (Record.required name read).assemble missing entry = .ok b ↔
      some (cell b).toValue = given entry name none := by
  cases hv : entry name with
  | none => simp [Record.required, given, hv]
  | some v => simp [Record.required, given, hv, h.eq_ok_iff, eq_comm]

theorem Reads.optional_eq_ok_iff (h : Reads read cell kind) {default : β} :
    (Record.optional name default read).assemble missing entry = .ok b ↔
      some (cell b).toValue = given entry name (some (cell default)) := by
  cases hv : entry name with
  | none =>
    simp only [Record.optional, given, hv, Except.ok.injEq, Option.map_none, Option.none_or,
      Option.map_some, Option.some.injEq]
    exact ⟨fun heq => heq ▸ rfl, fun heq => (h.toValue_inj heq).symm⟩
  | some v => simp [Record.optional, given, hv, h.eq_ok_iff, eq_comm]

theorem stream_eq_ok_iff {s : StreamSettings} :
    StreamSettings.record.assemble missing entry = .ok s ↔
      some (.text s.streamName) = given entry "stream_name" none
        ∧ some (.text s.consumerGroup) = given entry "consumer_group" (some (.text "$Default"))
        ∧ some (.integer s.maxBatchSize.toNat) = given entry "max_batch_size" (some (.integer 100))
        ∧ some (.integer s.prefetchCount.toNat) = given entry "prefetch_count" (some (.integer 300))
        ∧ some (.integer s.receiveTimeoutMs.toNat)
          = given entry "receive_timeout_ms" (some (.integer 604800000))
        ∧ some (.integer s.maxConcurrency.toNat)
          = given entry "max_concurrency_per_processor" (some (.integer 20)) := by
  obtain ⟨a, b, c, d, e, f⟩ := s
  simp [StreamSettings.record, Record.assemble_seq_eq_ok, Record.assemble_map_eq_ok,
    (reads_text _).required_eq_ok_iff, (reads_text _).optional_eq_ok_iff,
    (reads_uint64 _).optional_eq_ok_iff, StreamSettings.named, Cell.toValue, and_assoc]

theorem breaker_eq_ok_iff {s : BreakerSettings} :
    BreakerSettings.record.assemble missing entry = .ok s ↔
      some (.integer s.warningLevel.toInt) = given entry "warning_level" (some (.integer 200))
        ∧ some (.integer s.tripLevel.toInt) = given entry "trip_level" (some (.integer 400))
        ∧ some (.integer s.stallIntervalMs.toNat)
          = given entry "stall_interval_ms" (some (.integer 30000))
        ∧ some (.integer s.logCooldownMs.toNat)
          = given entry "log_cooldown_ms" (some (.integer 900000)) := by
  obtain ⟨a, b, c, d⟩ := s
  simp [BreakerSettings.record, Record.assemble_seq_eq_ok, Record.assemble_map_eq_ok,
    reads_int64.optional_eq_ok_iff, (reads_uint64 _).optional_eq_ok_iff, BreakerSettings.default,
    Cell.toValue, and_assoc]

theorem poison_eq_ok_iff {s : PoisonSettings} :
    PoisonSettings.record.assemble missing entry = .ok s ↔
      some (.bool s.enabled) = given entry "enabled" (some (.bool true))
        ∧ some (.text s.directory) = given entry "directory" (some (.text "poison-messages")) := by
  obtain ⟨a, b⟩ := s
  simp [-Bool.exists_bool, PoisonSettings.record, Record.assemble_seq_eq_ok,
    Record.assemble_map_eq_ok, reads_bool.optional_eq_ok_iff, (reads_text _).optional_eq_ok_iff,
    PoisonSettings.default, Cell.toValue]

theorem instrumentation_eq_ok_iff {s : InstrumentationSettings} :
    InstrumentationSettings.record.assemble missing entry = .ok s ↔
      some (.bool s.enabled) = given entry "enabled" (some (.bool false)) := by
  obtain ⟨a⟩ := s
  simp [InstrumentationSettings.record, Record.assemble_map_eq_ok, reads_bool.optional_eq_ok_iff,
    InstrumentationSettings.default, Cell.toValue]

theorem handlers_eq_ok_iff {s : HandlerSettings} :
    HandlerSettings.record.assemble missing entry = .ok s ↔
      some (.integer s.longRunningTaskMs.toNat)
        = given entry "long_running_task_duration_ms" (some (.integer 60000)) := by
  obtain ⟨a⟩ := s
  simp [HandlerSettings.record, Record.assemble_map_eq_ok, (reads_uint64 _).optional_eq_ok_iff,
    HandlerSettings.default, Cell.toValue]

end Sections

/-! ## Lawful records -/

theorem lawful_stream : (StreamSettings.record (σ := Value)).Lawful :=
  .seq (.seq (.seq (.seq (.seq (.map (.required ..)) (.optional ..)) (.optional ..)) (.optional ..))
    (.optional ..)) (.optional ..)

theorem lawful_breaker : (BreakerSettings.record (σ := Value)).Lawful :=
  .seq (.seq (.seq (.map (.optional ..)) (.optional ..)) (.optional ..)) (.optional ..)

theorem lawful_poison : (PoisonSettings.record (σ := Value)).Lawful :=
  .seq (.map (.optional ..)) (.optional ..)

theorem lawful_instrumentation : (InstrumentationSettings.record (σ := Value)).Lawful :=
  .map (.optional ..)

theorem lawful_handlers : (HandlerSettings.record (σ := Value)).Lawful := .map (.optional ..)

theorem lawful_record : (record (σ := Value)).Lawful :=
  .seq (.seq (.seq (.seq (.map (.required ..)) (.optional ..)) (.optional ..)) (.optional ..))
    (.optional ..)

/-! ## Documents of sections -/

theorem findEntry_eq_lookup {entries : List (Value × Value)}
    (h : ∀ e ∈ entries, ∃ name, e.1 = .text name) (name : String) :
    Record.findEntry entries name = Value.lookup (.text name) entries := by
  induction entries with
  | nil => rfl
  | cons e rest ih =>
    obtain ⟨k, v⟩ := e
    rw [List.forall_mem_cons] at h
    obtain ⟨s, rfl⟩ : ∃ s, k = .text s := h.1
    by_cases hs : s = name
    · subst hs
      rw [Value.lookup_cons_of_eq]
      exact if_pos rfl
    · rw [Value.lookup_cons_of_ne (by simpa using hs), ← ih h.2]
      exact if_neg hs

theorem legible_of_named {β : Type} (r : Record Value β) {entries : List (Value × Value)}
    (h : Value.Named entries) : r.Legible entries where
  texts e he := by
    obtain ⟨name, hname⟩ := h.texts e he
    exact ⟨name, by rw [hname]; rfl⟩
  once := by
    refine h.once.imp_of_mem ?_
    intro a b ha hb hab name _ hname hname'
    obtain ⟨s, hs⟩ := h.texts a ha
    obtain ⟨t, ht⟩ := h.texts b hb
    rw [hs] at hname
    rw [ht] at hname'
    cases hname
    cases hname'
    exact hab _ hs ht

/-- A table is decoded as a record by looking up each of its fields. -/
theorem read_table {β : Type} {r : Record Value β} (hr : r.Lawful) {typeName : String} {v : Value}
    (hv : v.IsTable) {b : β} :
    r.read typeName v = .ok b ↔ r.assemble .missingField v.get? = .ok b := by
  obtain ⟨entries, rfl, hentries⟩ := hv
  have hget : (Value.mapping entries).get? = Record.findEntry entries :=
    funext fun name => (findEntry_eq_lookup hentries.texts name).symm
  rw [hget]
  exact (Record.ofEntries_eq_ok_iff hr).trans (and_iff_right (legible_of_named r hentries))

/-- What a document says within a section; nothing if the section is missing. -/
def inSection (v : Value) (section_ name : String) : Option Value :=
  (v.get? section_).bind (·.get? name)

section Sections

variable {β : Type} {r : Record Value β} {typeName section_ : String} {v : Value}
  {missing : String → Decode.Error} {b : β}

/-- A section that must be there is read field by field, if not all its fields may be missing. -/
theorem required_section_eq_ok_iff (hr : r.Lawful)
    (hnone : ∀ b, r.assemble .missingField (fun _ => none) ≠ .ok b)
    (hv : ∀ x, v.get? section_ = some x → x.IsTable) :
    (Record.required section_ (r.read typeName)).assemble missing v.get? = .ok b ↔
      r.assemble .missingField (inSection v section_) = .ok b := by
  cases hx : v.get? section_ with
  | none =>
    have hin : inSection v section_ = fun _ => none := funext fun name => by simp [inSection, hx]
    simp [Record.required, hx, hin, hnone]
  | some x =>
    have hin : inSection v section_ = x.get? := funext fun name => by simp [inSection, hx]
    simp [Record.required, hx, hin, read_table hr (hv x hx)]

/-- A section that may be missing is read field by field, if its default is what comes of missing
fields. -/
theorem optional_section_eq_ok_iff (hr : r.Lawful) {default : β}
    (hnone : r.assemble .missingField (fun _ => none) = .ok default)
    (hv : ∀ x, v.get? section_ = some x → x.IsTable) :
    (Record.optional section_ default (r.read typeName)).assemble missing v.get? = .ok b ↔
      r.assemble .missingField (inSection v section_) = .ok b := by
  cases hx : v.get? section_ with
  | none =>
    have hin : inSection v section_ = fun _ => none := funext fun name => by simp [inSection, hx]
    simp [Record.optional, hx, hin, hnone]
  | some x =>
    have hin : inSection v section_ = x.get? := funext fun name => by simp [inSection, hx]
    simp [Record.optional, hx, hin, read_table hr (hv x hx)]

end Sections

/-- A table in which the sections of a configuration are tables as well. -/
structure IsTabular (v : Value) : Prop where
  table : v.IsTable
  sections : ∀ name ∈ sectionNames, ∀ x, v.get? name = some x → x.IsTable

variable {v : Value} {c : Config}

/-- A document is decoded section by section. -/
theorem decode_eq_ok_iff_sections (hv : IsTabular v) : decode v = .ok c ↔
    StreamSettings.record.assemble .missingField (inSection v "dispatcher") = .ok c.stream
      ∧ BreakerSettings.record.assemble .missingField (inSection v "circuit_breaker")
        = .ok c.breaker
      ∧ PoisonSettings.record.assemble .missingField (inSection v "poison") = .ok c.poison
      ∧ InstrumentationSettings.record.assemble .missingField (inSection v "instrumentation")
        = .ok c.instrumentation
      ∧ HandlerSettings.record.assemble .missingField (inSection v "handlers")
        = .ok c.handlers := by
  have hnone (s : StreamSettings) :
      StreamSettings.record.assemble .missingField (fun _ : String => (none : Option Value))
        ≠ .ok s := by
    simp [stream_eq_ok_iff, given]
  have hsection (name : String) (hname : name ∈ sectionNames := by decide) := hv.sections name hname
  obtain ⟨s, b, p, i, h⟩ := c
  rw [decode, read_table lawful_record hv.table]
  simp only [record, Record.assemble_seq_eq_ok, Record.assemble_map_eq_ok,
    required_section_eq_ok_iff lawful_stream hnone (hsection "dispatcher"),
    optional_section_eq_ok_iff lawful_breaker rfl (hsection "circuit_breaker"),
    optional_section_eq_ok_iff lawful_poison rfl (hsection "poison"),
    optional_section_eq_ok_iff lawful_instrumentation rfl (hsection "instrumentation"),
    optional_section_eq_ok_iff lawful_handlers rfl (hsection "handlers")]
  simp [and_assoc]

/-- A document of sections is decoded as the configuration that has in each field what the document
gives to it, or else its default. -/
theorem decode_eq_ok_iff (hv : IsTabular v) : decode v = .ok c ↔
    ∀ f ∈ fields, c.value? f = given (inSection v f.section_) f.name f.default := by
  rw [decode_eq_ok_iff_sections hv, stream_eq_ok_iff, breaker_eq_ok_iff, poison_eq_ok_iff,
    instrumentation_eq_ok_iff, handlers_eq_ok_iff]
  simp [fields, streamName, value?, toSheet, Cell.toValue, and_assoc]

end Config

end StreamDispatch
