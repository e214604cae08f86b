import StreamDispatch.Proofs.Config.Layers
import StreamDispatch.Proofs.Yaml.Sheet
import StreamDispatch.Validator.Report

set_option autoImplicit false

/-! # Configurations that are shown

A configuration is written as a sheet of its five sections. The text of the sheet is a configuration
file again, and the configuration that it gives is the one that was written, whatever its texts are
made of. -/

namespace StreamDispatch.Config

open Yaml (Cell Sheet Tail Value)

/-! ## Layout -/

/-- The sections of the sheet and the names of their fields. -/
def layout : List (String × List String) :=
  [("dispatcher",
      ["stream_name", "consumer_group", "max_batch_size", "prefetch_count", "receive_timeout_ms",
        "max_concurrency_per_processor"]),
    ("circuit_breaker", ["warning_level", "trip_level", "stall_interval_ms", "log_cooldown_ms"]),
    ("poison", ["enabled", "directory"]),
    ("instrumentation", ["enabled"]),
    ("handlers", ["long_running_task_duration_ms"])]

variable (c : Config)

theorem layout_toSheet : c.toSheet.map (fun e => (e.1, e.2.map Prod.fst)) = layout := rfl

theorem names_plain : ∀ e ∈ layout, Yaml.isPlainName e.1 = true ∧ e.2 ≠ []
    ∧ (∀ f ∈ e.2, Yaml.isPlainName f = true) ∧ e.2.Nodup := by
  decide +kernel

theorem isLegible_natural (n : UInt64) : (Cell.integer n.toNat).isLegible = true := by
  have hn := n.toNat_lt
  simp only [Cell.isLegible, Yaml.fitsWord, Bool.and_eq_true, decide_eq_true_eq, Nat.pow_eq]
  omega

theorem isLegible_integer (n : Int64) : (Cell.integer n.toInt).isLegible = true := by
  have hlow := n.le_toInt
  have hhigh := n.toInt_lt
  simp only [Cell.isLegible, Yaml.fitsWord, Bool.and_eq_true, decide_eq_true_eq, Nat.pow_eq]
  omega

theorem isLegible_toSheet : ∀ e ∈ c.toSheet, ∀ f ∈ e.2, f.2.isLegible = true := by
  have htext (s : String) : (Cell.text s).isLegible = true := rfl
  have htruth (b : Bool) : (Cell.bool b).isLegible = true := rfl
  simp only [toSheet, List.forall_mem_cons, htext, htruth, isLegible_natural, isLegible_integer,
    List.not_mem_nil, false_imp_iff, implies_true, and_self]

theorem isReadable_toSheet : c.toSheet.IsReadable where
  nonempty := List.cons_ne_nil _ _
  sections e he := by
    have hmem : (e.1, e.2.map Prod.fst) ∈ layout :=
      layout_toSheet c ▸ List.mem_map_of_mem (f := fun e => (e.1, e.2.map Prod.fst)) he
    obtain ⟨hname, hnonempty, hnames, hdistinct⟩ := names_plain _ hmem
    refine ⟨hname, fun hnil => hnonempty ?_, fun f hf => hnames _ (List.mem_map_of_mem hf),
      hdistinct, isLegible_toSheet c e he⟩
    rw [hnil, List.map_nil]
  distinct := by
    have hnames : c.toSheet.map Prod.fst = sectionNames := rfl
    rw [hnames]
    decide

/-! ## Reading what is written -/

theorem isTabular_toSheet : IsTabular c.toSheet.toValue where
  table := Value.isTable_toValue (isReadable_toSheet c)
  sections _ _ _ hv := Value.isTable_of_get?_toValue (isReadable_toSheet c) hv

/-- What a configuration has in a field is what its sheet says of the field. -/
theorem inSection_toSheet (f : Field) :
    inSection c.toSheet.toValue f.section_ f.name = c.value? f := by
  unfold inSection value?
  rw [Value.get?_toValue]
  cases c.toSheet.find? (·.1 == f.section_) with
  | none => rfl
  | some e =>
    show (Value.ofFields e.2).get? f.name
      = (e.2.find? (·.1 == f.name)).bind fun g => some g.2.toValue
    rw [Value.get?_ofFields]
    cases e.2.find? (·.1 == f.name) <;> rfl

/-- The sheet of a configuration is decoded as the configuration. -/
theorem decode_toSheet : decode c.toSheet.toValue = .ok c := by
  rw [decode_eq_ok_iff (isTabular_toSheet c)]
  intro f hf
  obtain ⟨x, hx, hadmits⟩ := value?_eq_some c hf
  obtain ⟨cell, rfl⟩ := exists_cell_of_admits hadmits
  rw [given, inSection_toSheet, hx, Option.map_some, Option.some_or, untagged_toValue]

/-- The text of a configuration is read as the configuration in every environment that has not the
name of a section, also with the empty line behind it that the validator prints. -/
theorem parse_shown {environment : String} (h : environment ∉ sectionNames) (source : String) :
    parse c.write environment source = .ok c
      ∧ parse (Validator.tell .showConfig c) environment source = .ok c := by
  have hnone : c.toSheet.toValue.get? environment = none := by
    rw [Value.get?_toValue, Option.map_eq_none_iff, List.find?_eq_none]
    intro e he hname
    have hmem : e.1 ∈ sectionNames := List.mem_map_of_mem (f := Prod.fst) he
    exact h (eq_of_beq hname ▸ hmem)
  have hdocument : ofDocument environment c.toSheet.toValue = .ok c := by
    rw [ofDocument_eq_ok_iff_laid, laid_of_get?_eq_none hnone]
    exact decode_toSheet c
  have hread {t : List Char} (ht : Tail c.toSheet.mayBeBlank 0 [] t) :
      parse (c.write ++ String.ofList t) environment source = .ok c := by
    rw [parse, write, Value.parse_write (isReadable_toSheet c) ht]
    simp only [hdocument]
  exact ⟨by simpa using hread .done, hread (.blankLine rfl)⟩

/-- A configuration with texts that look like something else: one that looks like a number, one with
a bell and a tab between marks, and one of several lines that begins and ends with blank lines. -/
def hostileSample : Config where
  stream :=
    { streamName := "0x1F"
      consumerGroup := " - 'no': \x07\t#"
      maxBatchSize := 18446744073709551615
      prefetchCount := 0
      receiveTimeoutMs := 1
      maxConcurrency := 20 }
  breaker := ⟨-9223372036854775808, 9223372036854775807, 0, 0⟩
  poison := ⟨false, "\n  ~\n# null\n\n"⟩
  instrumentation := ⟨true⟩
  handlers := ⟨0⟩

theorem parse_shown_hostileSample :
    ("test" ∉ sectionNames
        ∧ Yaml.writeText 4 hostileSample.stream.streamName = "'0x1F'\n".toList
        ∧ Yaml.writeText 4 hostileSample.stream.consumerGroup = "\" - 'no': \\a\\t#\"\n".toList
        ∧ Yaml.writeText 4 hostileSample.poison.directory
          = "|2+\n\n      ~\n    # null\n\n".toList)
      ∧ parse hostileSample.write "test" "shown" = .ok hostileSample
      ∧ parse (Validator.tell .showConfig hostileSample) "test" "shown" = .ok hostileSample :=
  ⟨by decide +kernel, parse_shown hostileSample (by decide) "shown"⟩

end StreamDispatch.Config
