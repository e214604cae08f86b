import StreamDispatch.Config.Document
import StreamDispatch.Proofs.Config.Fields
import StreamDispatch.Proofs.Yaml.Tree

set_option autoImplicit false

/-! # Layers of a document

A document has two layers: the sections of the configuration at its top, and those within the
section of an environment. Where the sections are mappings with texts as keys, a field holds what
the environment's layer says of it, or else what the top says, or else its default; and nothing
else in the document counts.

The overlay is made on a document that still contains the environment's section, and that section
may have entries of any name. So all that is used of it here is what `Value.overlay` does to the
entries of the fields; that other entries have no part in decoding is a fact about records. -/

namespace StreamDispatch.Config

open Decode (Record)
open Yaml (Cell Value)

variable {v u x : Value} {c : Config} {e name section_ : String} {f : Field}

/-! ## Sections that are set aside -/

/-- An entry that is no section of the configuration may as well be missing. -/
theorem decode_of_perm_cons {entries rest : List (Value × Value)} (hname : name ∉ sectionNames)
    (hperm : entries.Perm ((.text name, x) :: rest)) :
    decode (Value.mapping entries) = .ok c ↔ decode (Value.mapping rest) = .ok c := by
  have hunknown : record.ofEntries ((.text name, x) :: rest) = .ok c ↔
      record.ofEntries rest = .ok c :=
    Record.ofEntries_cons_of_unknown lawful_record rfl hname
  constructor
  · exact fun h => hunknown.mp (Record.ofEntries_eq_ok_of_perm lawful_record hperm h)
  · exact fun h => Record.ofEntries_eq_ok_of_perm lawful_record hperm.symm (hunknown.mpr h)

theorem decode_remove (hname : name ∉ sectionNames) :
    decode (v.remove name) = .ok c ↔ decode v = .ok c := by
  cases v with
  | mapping entries =>
    rcases Value.perm_removeEntry (.text name) entries with ⟨-, heq⟩ | ⟨⟨k, x⟩, -, hk, hperm⟩
    · rw [Value.remove, heq]
    · obtain rfl := Value.text_same_iff.mp hk
      exact (decode_of_perm_cons hname hperm).symm
  | _ => rfl

theorem not_mem_sectionNames_of_mem_environments (h : name ∈ environments) :
    name ∉ sectionNames := by
  have hall : ∀ name ∈ environments, name ∉ sectionNames := by decide
  exact hall name h

theorem decode_foldl_remove {names : List String} (hnames : ∀ name ∈ names, name ∉ sectionNames) :
    decode (names.foldl (fun v name => v.remove name) v) = .ok c ↔ decode v = .ok c := by
  induction names generalizing v with
  | nil => rfl
  | cons name rest ih =>
    rw [List.forall_mem_cons] at hnames
    rw [List.foldl_cons, ih hnames.2, decode_remove hnames.1]

/-- A document as it is laid for an environment, before the sections of environments are taken
out. -/
def laid (e : String) (v : Value) : Value := ((v.get? e).map v.overlay).getD v

theorem forEnvironment_eq (e : String) (v : Value) :
    forEnvironment e v = environments.foldl (fun v name => v.remove name) (laid e v) := by
  rw [forEnvironment, laid]
  cases v.get? e <;> rfl

theorem ofDocument_eq_ok_iff_laid : ofDocument e v = .ok c ↔ decode (laid e v) = .ok c := by
  rw [ofDocument, forEnvironment_eq]
  exact decode_foldl_remove fun _ => not_mem_sectionNames_of_mem_environments

/-! ## Overlays of documents -/

theorem IsTabular.overlay (hv : IsTabular v) (hu : IsTabular u) : IsTabular (v.overlay u) where
  table := hv.table.overlay hu.table
  sections name hname x hx := by
    rw [hv.table.get?_overlay hu.table] at hx
    split at hx
    · exact hv.sections name hname x hx
    · next y hy =>
      have hytable := hu.sections name hname y hy
      cases hx
      cases hold : v.get? name with
      | none => exact hytable
      | some old => exact (hv.sections name hname old hold).overlay hytable

/-- What a document says within a section after another document has been laid over it. -/
theorem inSection_overlay (hv : IsTabular v) (hu : IsTabular u) (hs : section_ ∈ sectionNames) :
    inSection (v.overlay u) section_ name
      = match inSection u section_ name with
        | none => inSection v section_ name
        | some x => some ((inSection v section_ name).elim x fun old => old.overlay x) := by
  simp only [inSection, hv.table.get?_overlay hu.table]
  cases hy : u.get? section_ with
  | none => rfl
  | some y =>
    cases hold : v.get? section_ with
    | none => cases hx : y.get? name <;> simp [hx]
    | some old =>
      exact (hv.sections _ hs old hold).get?_overlay (hu.sections _ hs y hy) name

/-- The value of a field is laid over another one by taking its place. -/
theorem untagged_overlay_eq_toValue_iff {cell : Cell} :
    (v.overlay u).untagged = cell.toValue ↔ u.untagged = cell.toValue := by
  cases u with
  | mapping upper =>
    have hne (entries : List (Value × Value)) :
        (Value.mapping entries).untagged ≠ cell.toValue := by
      cases cell <;> exact nofun
    have hv : ∃ entries, v.overlay (.mapping upper) = .mapping entries := by
      cases v <;> exact ⟨_, rfl⟩
    obtain ⟨entries, hv⟩ := hv
    rw [hv]
    exact iff_of_false (hne _) (hne _)
  | _ => rfl

/-! ## What a document says of a field -/

/-- What a document says of a field in an environment: what stands in the layer of the environment,
or else at the top. -/
def setting? (e : String) (v : Value) (f : Field) : Option Value :=
  ((v.get? e).bind (inSection · f.section_ f.name)).or (inSection v f.section_ f.name)

/-- A document whose two layers have nothing but tables as sections. -/
structure IsLayered (e : String) (v : Value) : Prop where
  top : IsTabular v
  environment : ∀ u, v.get? e = some u → IsTabular u

theorem IsLayered.tabular_laid (h : IsLayered e v) : IsTabular (laid e v) := by
  unfold laid
  cases hu : v.get? e with
  | none => exact h.top
  | some u => exact h.top.overlay (h.environment u hu)

theorem exists_cell_of_admits {kind : Kind} (h : kind.admits x = true) :
    ∃ cell : Cell, x = cell.toValue := by
  cases kind with
  | text => exact ((reads_text "").admits_iff.mp h).imp' Cell.text fun _ => id
  | truth => exact (reads_bool.admits_iff.mp h).imp' Cell.bool fun _ => id
  | natural => exact ((reads_uint64 "").admits_iff.mp h).imp' _ fun _ => id
  | integer => exact (reads_int64.admits_iff.mp h).imp' _ fun _ => id

/-- Every field of a configuration has a value that it may hold. -/
theorem value?_eq_some (c : Config) (hf : f ∈ fields) :
    ∃ x, c.value? f = some x ∧ f.kind.admits x = true := by
  have htext (s : String) : Kind.text.admits (.text s) = true := rfl
  have htruth (b : Bool) : Kind.truth.admits (.bool b) = true := rfl
  have hnatural (n : UInt64) : Kind.natural.admits (.integer n.toNat) = true :=
    (reads_uint64 "").admits_iff.mpr ⟨n, rfl⟩
  have hinteger (n : Int64) : Kind.integer.admits (.integer n.toInt) = true :=
    reads_int64.admits_iff.mpr ⟨n, rfl⟩
  have hall : ∀ f ∈ fields, ∃ x, c.value? f = some x ∧ f.kind.admits x = true := by
    simp [fields, streamName, value?, toSheet, Cell.toValue, htext, htruth, hnatural, hinteger]
  exact hall f hf

/-- Any choice of values that the fields may hold is a configuration. -/
theorem exists_of_values {values : Field → Option Value}
    (h : ∀ f ∈ fields, ∃ x, values f = some x ∧ f.kind.admits x = true) :
    ∃ c : Config, ∀ f ∈ fields, c.value? f = values f := by
  have htext {x : Value} : Kind.text.admits x = true ↔ ∃ s, x = .text s :=
    (reads_text "").admits_iff
  have htruth {x : Value} : Kind.truth.admits x = true ↔ ∃ b, x = .bool b := reads_bool.admits_iff
  have hnatural {x : Value} : Kind.natural.admits x = true ↔ ∃ n : UInt64, x = .integer n.toNat :=
    (reads_uint64 "").admits_iff
  have hinteger {x : Value} : Kind.integer.admits x = true ↔ ∃ n : Int64, x = .integer n.toInt :=
    reads_int64.admits_iff
  simp only [fields, streamName, List.forall_mem_cons, htext, htruth, hnatural, hinteger] at h
  obtain ⟨⟨_, h₁, s₁, rfl⟩, ⟨_, h₂, s₂, rfl⟩, ⟨_, h₃, s₃, rfl⟩, ⟨_, h₄, s₄, rfl⟩, ⟨_, h₅, s₅, rfl⟩,
    ⟨_, h₆, s₆, rfl⟩, ⟨_, h₇, b₁, rfl⟩, ⟨_, h₈, b₂, rfl⟩, ⟨_, h₉, b₃, rfl⟩, ⟨_, h₁₀, b₄, rfl⟩,
    ⟨_, h₁₁, p₁, rfl⟩, ⟨_, h₁₂, p₂, rfl⟩, ⟨_, h₁₃, i₁, rfl⟩, ⟨_, h₁₄, t₁, rfl⟩, -⟩ := h
  refine ⟨⟨⟨s₁, s₂, s₃, s₄, s₅, s₆⟩, ⟨b₁, b₂, b₃, b₄⟩, ⟨p₁, p₂⟩, ⟨i₁⟩, ⟨t₁⟩⟩, ?_⟩
  simp [fields, streamName, value?, toSheet, Cell.toValue, h₁, h₂, h₃, h₄, h₅, h₆, h₇, h₈, h₉, h₁₀,
    h₁₁, h₁₂, h₁₃, h₁₄]

/-- A field gets its setting, or else its default. -/
theorem IsLayered.ofDocument_eq_ok_iff (h : IsLayered e v) : ofDocument e v = .ok c ↔
    ∀ f ∈ fields,
      c.value? f = ((setting? e v f).map Value.untagged).or (f.default.map Cell.toValue) := by
  rw [ofDocument_eq_ok_iff_laid, decode_eq_ok_iff h.tabular_laid]
  -- Values that are laid over each other count only if they are values of fields, and the upper one
  -- of those takes the place of the lower one.
  refine forall₂_congr fun f hf => ?_
  obtain ⟨y, hy, hadmits⟩ := value?_eq_some c hf
  obtain ⟨cell, rfl⟩ := exists_cell_of_admits hadmits
  rw [hy, given, laid, setting?]
  cases hu : v.get? e with
  | none => rfl
  | some u =>
    simp only [Option.map_some, Option.getD_some, Option.bind_some,
      inSection_overlay h.top (h.environment u hu) (section_mem_of_mem_fields hf)]
    cases inSection u f.section_ f.name with
    | none => rfl
    | some x =>
      cases inSection v f.section_ f.name with
      | none => rfl
      | some old =>
        simp only [Option.elim_some, Option.map_some, Option.some_or, Option.some.injEq]
        rw [eq_comm, untagged_overlay_eq_toValue_iff, eq_comm]

/-- Nothing but a missing name of the stream, or a setting that its field may not hold, stands in
the way of a configuration. -/
theorem IsLayered.exists_ofDocument_iff (h : IsLayered e v) : (∃ c, ofDocument e v = .ok c) ↔
    (setting? e v streamName).isSome = true
      ∧ ∀ f ∈ fields, ∀ x, setting? e v f = some x → f.kind.admits x.untagged = true := by
  simp only [h.ofDocument_eq_ok_iff]
  constructor
  · rintro ⟨c, hc⟩
    have hadmits (f : Field) (hf : f ∈ fields) : ∃ y,
        ((setting? e v f).map Value.untagged).or (f.default.map Cell.toValue) = some y
          ∧ f.kind.admits y = true := by
      obtain ⟨y, hy, hadmits⟩ := value?_eq_some c hf
      exact ⟨y, (hc f hf).symm.trans hy, hadmits⟩
    constructor
    · obtain ⟨y, hy, -⟩ := hadmits streamName (by simp [fields])
      cases hs : setting? e v streamName with
      | none =>
        rw [hs] at hy
        cases hy
      | some x => rfl
    · intro f hf x hx
      obtain ⟨y, hy, hy'⟩ := hadmits f hf
      simp only [hx, Option.map_some, Option.some_or, Option.some.injEq] at hy
      exact hy ▸ hy'
  · rintro ⟨hname, hadmits⟩
    refine exists_of_values fun f hf => ?_
    cases hx : setting? e v f with
    | some x => exact ⟨x.untagged, rfl, hadmits f hf x hx⟩
    | none =>
      cases hd : f.default with
      | some cell => exact ⟨cell.toValue, rfl, kind_admits_default hf hd⟩
      | none =>
        rw [eq_streamName_of_default_eq_none hf hd] at hx
        simp [hx] at hname

/-! ## Documents without tags -/

/-- Whether a value and the sections of a configuration in it are mappings with texts as keys. -/
def isTabular (v : Value) : Bool :=
  v.isTextKeyed && sectionNames.all fun name => (v.get? name).all Value.isTextKeyed

/-- Whether a document is tabular, and so is the section of an environment in it, if there is
one. -/
def isLayered (e : String) (v : Value) : Bool := isTabular v && (v.get? e).all isTabular

theorem IsTabular.of_isTabular (hd : v.hasDistinctKeys = true) (h : isTabular v = true) :
    IsTabular v := by
  obtain ⟨htable, hsections⟩ := (Bool.and_eq_true _ _).mp h
  have hv : v.IsTable := Value.isTable_of_isTextKeyed hd htable
  refine ⟨hv, fun name hname x hx => ?_⟩
  have hkeyed : x.isTextKeyed = true := by
    simpa [hx] using List.all_eq_true.mp hsections name hname
  exact Value.isTable_of_isTextKeyed (hv.hasDistinctKeys_of_get? hd hx) hkeyed

theorem IsLayered.of_isLayered (hd : v.hasDistinctKeys = true) (h : isLayered e v = true) :
    IsLayered e v := by
  obtain ⟨htop, henvironment⟩ := (Bool.and_eq_true _ _).mp h
  have hv : IsTabular v := .of_isTabular hd htop
  refine ⟨hv, fun u hu => .of_isTabular (hv.table.hasDistinctKeys_of_get? hd hu) ?_⟩
  simpa [hu] using henvironment

theorem IsTabular.isTagFree_of_inSection (hv : IsTabular v) (ht : v.isTagFree = true)
    (hs : section_ ∈ sectionNames) (hx : inSection v section_ name = some x) :
    x.isTagFree = true := by
  obtain ⟨y, hy, hx⟩ := Option.bind_eq_some_iff.mp hx
  exact (hv.sections _ hs y hy).isTagFree_of_get? (hv.table.isTagFree_of_get? ht hy) hx

/-- A setting of a document without tags is what it looks like. -/
theorem IsLayered.untagged_setting? (h : IsLayered e v) (ht : v.isTagFree = true)
    (hf : f ∈ fields) : (setting? e v f).map Value.untagged = setting? e v f := by
  have hs := section_mem_of_mem_fields hf
  have hfree (x : Value) (hx : setting? e v f = some x) : x.isTagFree = true := by
    rcases Option.or_eq_some_iff.mp hx with hx | ⟨-, hx⟩
    · obtain ⟨u, hu, hx⟩ := Option.bind_eq_some_iff.mp hx
      exact (h.environment u hu).isTagFree_of_inSection (h.top.table.isTagFree_of_get? ht hu) hs hx
    · exact h.top.isTagFree_of_inSection ht hs hx
  cases hx : setting? e v f with
  | none => rfl
  | some x => rw [Option.map_some, Value.untagged_of_isTagFree (hfree x hx)]

/-- The text of a document gives the configuration that the document does. -/
theorem parse_eq_ok_iff {text source : String} {c : Config} (h : Value.parse text = .ok v) :
    parse text e source = .ok c ↔ ofDocument e v = .ok c := by
  simp only [parse, h]
  cases ofDocument e v <;> simp

/-- In a document without tags, whose sections at the top and in an environment are absent or
mappings with texts as keys, each field has the value that stands in the environment's layer, or
else the one at the top, or else its default, and nothing else has any influence. There is a
configuration exactly if the stream is named in one of the two layers and each field may hold its
setting, as it stands there. A value that is laid over is not looked at. All this holds of the text
of such a document as well, in which no key stands twice. -/
theorem fields_of_layers (e : String) (v : Value) (htags : v.isTagFree = true)
    (hlayers : isLayered e v = true) :
    (v.hasDistinctKeys = true →
      (∀ c, ofDocument e v = .ok c ↔
          ∀ f ∈ fields, c.value? f = (setting? e v f).or (f.default.map Cell.toValue))
        ∧ ((∃ c, ofDocument e v = .ok c) ↔
          (setting? e v streamName).isSome = true
            ∧ ∀ f ∈ fields, ∀ x, setting? e v f = some x → f.kind.admits x = true)
        ∧ ∀ e' v', v'.hasDistinctKeys = true → v'.isTagFree = true → isLayered e' v' = true →
          (∀ f ∈ fields, setting? e' v' f = setting? e v f) →
            ∀ c, ofDocument e' v' = .ok c ↔ ofDocument e v = .ok c)
      ∧ ∀ text source, Value.parse text = .ok v →
        (∀ c, parse text e source = .ok c ↔ ofDocument e v = .ok c)
          ∧ (∀ c, parse text e source = .ok c ↔
            ∀ f ∈ fields, c.value? f = (setting? e v f).or (f.default.map Cell.toValue))
          ∧ ((∃ c, parse text e source = .ok c) ↔
            (setting? e v streamName).isSome = true
              ∧ ∀ f ∈ fields, ∀ x, setting? e v f = some x → f.kind.admits x = true) := by
  have heq (e : String) (v : Value) (hkeys : v.hasDistinctKeys = true)
      (htags : v.isTagFree = true) (hlayers : isLayered e v = true) (c : Config) :
      ofDocument e v = .ok c ↔
        ∀ f ∈ fields, c.value? f = (setting? e v f).or (f.default.map Cell.toValue) := by
    have h : IsLayered e v := .of_isLayered hkeys hlayers
    rw [h.ofDocument_eq_ok_iff]
    exact forall₂_congr fun f hf => by rw [h.untagged_setting? htags hf]
  have hexists (hkeys : v.hasDistinctKeys = true) : (∃ c, ofDocument e v = .ok c) ↔
      (setting? e v streamName).isSome = true
        ∧ ∀ f ∈ fields, ∀ x, setting? e v f = some x → f.kind.admits x = true := by
    have h : IsLayered e v := .of_isLayered hkeys hlayers
    rw [h.exists_ofDocument_iff]
    refine and_congr_right fun _ => forall₂_congr fun f hf => forall₂_congr fun x hx => ?_
    have huntagged := h.untagged_setting? htags hf
    rw [hx, Option.map_some, Option.some.injEq] at huntagged
    rw [huntagged]
  constructor
  · intro hkeys
    refine ⟨heq e v hkeys htags hlayers, hexists hkeys, ?_⟩
    intro e' v' hkeys' htags' hlayers' hsame c
    rw [heq e' v' hkeys' htags' hlayers', heq e v hkeys htags hlayers]
    exact forall₂_congr fun f hf => by rw [hsame f hf]
  · intro text source hparse
    have hkeys := Value.hasDistinctKeys_of_parse hparse
    refine ⟨fun c => parse_eq_ok_iff hparse, fun c => ?_, ?_⟩
    · rw [parse_eq_ok_iff hparse, heq e v hkeys htags hlayers]
    · rw [← hexists hkeys]
      exact exists_congr fun c => parse_eq_ok_iff hparse

/-- A document with settings of a field in both layers: a wrong one at the top that is laid over,
sections of environments within the section of an environment, and entries of no meaning. -/
def layeredSample : Value :=
  .mapping
    [(.text "dispatcher", .mapping
        [(.text "stream_name", .text "base"), (.text "max_batch_size", .text "many"),
          (.text "unknown", .sequence [])]),
      (.text "test", .mapping
        [(.text "dispatcher", .mapping [(.text "max_batch_size", .integer 18446744073709551615)]),
          (.text "test", .mapping [(.text "dispatcher", .null)]),
          (.text "poison", .mapping [(.text "enabled", .bool false)])]),
      (.text "poison", .mapping [(.text "enabled", .bool true), (.text "directory", .text "kept")]),
      (.text "production", .integer 3)]

theorem fields_of_layeredSample :
    (layeredSample.hasDistinctKeys = true ∧ layeredSample.isTagFree = true
        ∧ isLayered "test" layeredSample = true)
      ∧ ofDocument "test" layeredSample = .ok
        { stream := { StreamSettings.named "base" with maxBatchSize := 18446744073709551615 }
          breaker := .default
          poison := ⟨false, "kept"⟩
          instrumentation := .default
          handlers := .default } := by
  refine ⟨by decide +kernel, ?_⟩
  obtain ⟨hdocument, -⟩ :=
    fields_of_layers "test" layeredSample (by decide +kernel) (by decide +kernel)
  refine ((hdocument (by decide +kernel)).1 _).mpr ?_
  simp [fields, streamName, value?, toSheet, setting?, inSection, Value.get?, Value.lookup,
    Value.untagged, layeredSample, Cell.toValue, StreamSettings.named, BreakerSettings.default,
    InstrumentationSettings.default, HandlerSettings.default]

/-! ## Sections of environments that set nothing -/

/-- A document counts for an environment that it has no section of as it stands. -/
theorem laid_of_get?_eq_none (h : v.get? e = none) : laid e v = v := by
  rw [laid, h, Option.map_none, Option.getD_none]

/-- An empty mapping laid over a mapping adds nothing to it. -/
theorem overlay_empty (entries : List (Value × Value)) :
    (Value.mapping entries).overlay (.mapping []) = .mapping entries := rfl

/-- A section that is null is laid over the whole document, of which nothing is left. -/
theorem ofDocument_of_null (h : v.get? e = some .null) :
    ofDocument e v = .error (.missingField "dispatcher") := by
  have hnull : forEnvironment e v = .null := by
    rw [forEnvironment, h]
    rfl
  rw [ofDocument, hnull]
  rfl

/-- The section of an environment that is an empty mapping changes nothing. One that is null does,
unless the document without it is no configuration either: it takes the place of the whole document,
and so no stream is named. -/
theorem ofDocument_of_empty_section (e : String) (entries : List (Value × Value)) (x : Value)
    (hkeys : (Value.mapping entries).hasDistinctKeys = true) (he : e ∉ sectionNames)
    (hx : (Value.mapping entries).get? e = some x) (hempty : x = .null ∨ x = .mapping []) :
    ((∀ c, ofDocument e (.mapping entries) = .ok c ↔
          ofDocument e ((Value.mapping entries).without e) = .ok c) ↔
        x = .mapping [] ∨ ∀ c, ofDocument e ((Value.mapping entries).without e) ≠ .ok c)
      ∧ (x = .null → ofDocument e (.mapping entries) = .error (.missingField "dispatcher")) := by
  have honce : Value.Once entries := Value.once_of_areDistinct hkeys
  have hwithout (c : Config) : ofDocument e ((Value.mapping entries).without e) = .ok c ↔
      decode (Value.mapping entries) = .ok c := by
    rw [ofDocument_eq_ok_iff_laid, laid_of_get?_eq_none Value.get?_without]
    exact (decode_of_perm_cons he (honce.perm_of_lookup hx)).symm
  refine ⟨?_, fun hnull => ofDocument_of_null (hnull ▸ hx)⟩
  rcases hempty with rfl | rfl
  · simp [ofDocument_of_null hx, eq_comm]
  · have hsame (c : Config) : ofDocument e (.mapping entries) = .ok c ↔
        ofDocument e ((Value.mapping entries).without e) = .ok c := by
      rw [hwithout, ofDocument_eq_ok_iff_laid, laid, hx, Option.map_some, Option.getD_some,
        overlay_empty]
    exact iff_of_true hsame (.inl rfl)

/-- A document that names its stream and has a section of an environment. -/
def sampleWithSection (section_ : Value) : List (Value × Value) :=
  [(.text "dispatcher", .mapping [(.text "stream_name", .text "base")]), (.text "test", section_)]

theorem ofDocument_of_empty_section_test :
    ((Value.mapping (sampleWithSection .null)).hasDistinctKeys = true ∧ "test" ∉ sectionNames
        ∧ (Value.mapping (sampleWithSection .null)).get? "test" = some .null)
      ∧ ofDocument "test" (.mapping (sampleWithSection .null))
        = .error (.missingField "dispatcher") := by
  have hkeys : (Value.mapping (sampleWithSection .null)).hasDistinctKeys = true := by
    decide +kernel
  have hx : (Value.mapping (sampleWithSection .null)).get? "test" = some .null := by
    simp [sampleWithSection, Value.lookup]
  exact ⟨⟨hkeys, by decide, hx⟩, (ofDocument_of_empty_section "test" _ .null hkeys (by decide) hx
    (.inl rfl)).2 rfl⟩

/-- With a section that is null there is no configuration; without it there is one. -/
theorem null_section_changes_document :
    (∀ c, ofDocument "test" (.mapping (sampleWithSection .null)) ≠ .ok c)
      ∧ ∃ c, ofDocument "test" ((Value.mapping (sampleWithSection .null)).without "test")
        = .ok c :=
  ⟨fun _ h => (nomatch h : False), ⟨_, rfl⟩⟩

end StreamDispatch.Config
