import Mathlib.Data.List.Forall2
import StreamDispatch.Proofs.Decode.Scalar
import StreamDispatch.Proofs.Json.Reading
import StreamDispatch.Proofs.Json.Schema

set_option autoImplicit false

/-! # Records that are exchanged

A reader belongs to a schema and a writer if it takes just the values that stand for what the writer
writes (`Reads`). The readers of fields make up the reader of a record (`Describes.reads`), and a
record that is built so is exchanged without loss, whatever form it is given in (`Exchanges`). -/

namespace StreamDispatch.Json

open Decode (AreWords Record Reader Error)
open Decode.Document (view)
open Schema (Alike Holds Overflows Stands names row written)

/-! ## Readers -/

section Readers

variable {β : Type} {s : Schema} {read : Decode.Reader Json β} {write : β → Json} {v : Json} {b : β}

/-- A reader takes the values that stand for what is written, and no others. -/
structure Reads (s : Schema) (read : Decode.Reader Json β) (write : β → Json) : Prop where
  wellFormed : s.WellFormed
  eq_ok_iff : ∀ {v : Json} {b : β}, read v = .ok b ↔ s.Stands v (write b)
  stands : ∀ b, s.Stands (write b) (write b)
  canonical : ∀ b, Canonical (write b)

theorem Reads.read_write (h : Reads s read write) (b : β) : read (write b) = .ok b :=
  h.eq_ok_iff.mpr (h.stands b)

theorem Reads.injective (h : Reads s read write) : Function.Injective write := fun b b' heq =>
  Except.ok.inj ((h.read_write b).symm.trans (heq ▸ h.read_write b'))

/-- A reader for values that have no other form. -/
theorem Reads.plain (hs : ∀ fields, s ≠ .record fields)
    (hread : ∀ v b, read v = .ok b ↔ v = write b) (hadmits : ∀ b, s.Admits (write b))
    (hcanonical : ∀ b, Canonical (write b)) : Reads s read write where
  wellFormed := .plain hs
  eq_ok_iff {v b} := by
    rw [hread]
    constructor
    · rintro rfl
      exact .plain (hadmits b)
    · intro h
      have hplain := hadmits b
      generalize hw : write b = w at h hplain
      cases h with
      | plain _ => rfl
      | texts _ => cases hplain
      | record _ _ _ _ => cases hplain
  stands b := .plain (hadmits b)
  canonical := hcanonical

theorem view_eq_text_iff {t : String} : view v = .text t ↔ v = .string t := by
  cases v <;> simp [view, shape]

theorem view_eq_integer_iff {n : Int} : view v = .integer n ↔ v = .integer n := by
  cases v <;> simp [view, shape]

theorem reads_text (expected : String) : Reads .text (Decode.text expected) .string :=
  .plain nofun (fun _ _ => Decode.text_eq_ok_iff.trans view_eq_text_iff) (fun _ => trivial) .string

theorem reads_bool : Reads .truth Decode.bool .bool := by
  refine .plain nofun (fun v b => ?_) (fun _ => trivial) .bool
  rw [Decode.bool_eq_ok_iff]
  cases v <;> simp [view, shape]

/-! ## Integers -/

section Words

variable {low high : Int} {ofInt : Int → β} {toInt : β → Int}

theorem canonical_integer (h : AreWords low high ofInt toInt) (hlow : -2 ^ 63 ≤ low)
    (hhigh : high < 2 ^ 64) (b : β) : Canonical (.integer (toInt b)) := by
  have hb := h.range b
  refine .integer ?_
  simp only [integerRange, Bool.and_eq_true, decide_eq_true_eq, Nat.pow_eq]
  omega

theorem reads_words (h : AreWords low high ofInt toInt) (hlow : -2 ^ 63 ≤ low)
    (hhigh : high < 2 ^ 64) (expected : String) :
    Reads (.integer low high) (fun v => (Decode.integer low high expected v).map ofInt)
      (fun b => .integer (toInt b)) :=
  .plain nofun (fun _ _ => h.decode_eq_ok_iff.trans view_eq_integer_iff) h.range
    (canonical_integer h hlow hhigh)

end Words

theorem reads_uint64 (expected : String) :
    Reads (.unsigned 64) (Decode.uint64 expected) (fun n => .integer n.toNat) :=
  reads_words Decode.areWords_uint64 (by decide) (by decide) expected

theorem reads_int32 : Reads (.signed 32) Decode.int32 (fun n => .integer n.toInt) :=
  reads_words Decode.areWords_int32 (by decide) (by decide) "i32"

theorem reads_int64 : Reads (.signed 64) Decode.int64 (fun n => .integer n.toInt) :=
  reads_words Decode.areWords_int64 (by decide) (by decide) "i64"

/-! ## Lists -/

theorem mapM_eq_ok_iff {α γ : Type} {item : α → Except Error γ} {g : γ → α}
    (h : ∀ a c, item a = .ok c ↔ a = g c) {as : List α} {cs : List γ} :
    as.mapM item = .ok cs ↔ as = cs.map g := by
  induction as generalizing cs with
  | nil => cases cs <;> simp [pure, Except.pure]
  | cons a as ih =>
    simp only [List.mapM_cons, Decode.bind_eq_ok_iff, h, ih, pure, Except.pure, Except.ok.injEq]
    constructor
    · rintro ⟨c, rfl, cs', rfl, rfl⟩
      rfl
    · intro heq
      cases cs with
      | nil => cases heq
      | cons c cs =>
        obtain ⟨rfl, rfl⟩ := List.cons.inj heq
        exact ⟨c, rfl, cs, rfl, rfl⟩

theorem reads_bytes : Reads (.integers 0 255) (Decode.sequence Decode.uint8)
    (fun bytes : List UInt8 => .array (bytes.map fun b => .integer b.toNat)) := by
  refine .plain nofun (fun v bytes => ?_) (fun bytes v hv => ?_) fun bytes => .array fun v hv => ?_
  · cases v with
    | array items =>
      rw [Json.array.injEq]
      exact mapM_eq_ok_iff fun v b =>
        Decode.areWords_uint8.decode_eq_ok_iff.trans view_eq_integer_iff
    | _ => simp [Decode.sequence, Decode.wrongType, Decode.Document.view, shape]
  · obtain ⟨b, -, rfl⟩ := List.mem_map.mp hv
    exact ⟨_, rfl, Decode.areWords_uint8.range b⟩
  · obtain ⟨b, -, rfl⟩ := List.mem_map.mp hv
    exact canonical_integer Decode.areWords_uint8 (by decide) (by decide) b

theorem textEntries_eq_ok_iff {entries : List (String × String)} :
    Decode.textEntries v = .ok entries ↔ v = Schema.textObject entries := by
  cases v with
  | object members =>
    have hmember (m : String × Json) (e : String × String) :
        (do return (← Decode.text "a string" (Json.string m.1), ← Decode.text "a string" m.2))
          = Except.ok e ↔ m = (e.1, .string e.2) := by
      obtain ⟨k, u⟩ := m
      obtain ⟨k', t⟩ := e
      have htext : Decode.text "a string" (Json.string k) = .ok k := Decode.text_eq_ok_iff.mpr rfl
      simp only [htext, Decode.bind_eq_ok_iff, Decode.text_eq_ok_iff, view_eq_text_iff, pure,
        Except.pure, Except.ok.injEq, Prod.mk.injEq]
      constructor
      · rintro ⟨_, rfl, _, rfl, rfl, rfl⟩
        exact ⟨rfl, rfl⟩
      · rintro ⟨rfl, rfl⟩
        exact ⟨_, rfl, _, rfl, rfl, rfl⟩
    rw [Schema.textObject, Json.object.injEq, ← mapM_eq_ok_iff hmember]
    show (members.map fun m => (Json.string m.1, m.2)).mapM _ = _ ↔ _
    rw [List.mapM_map]
    rfl
  | _ => simp [Decode.textEntries, Decode.wrongType, Decode.Document.view, shape, Schema.textObject]

theorem reads_texts : Reads .texts (fun v => (Decode.textEntries v).map Dictionary.ofList)
    Json.ofTexts := by
  have hentries (d : Dictionary String) : Dictionary.ofList d.entries = d :=
    Dictionary.ofList_of_perm (.refl _)
  have hinjective {d d' : Dictionary String} (h : Json.ofTexts d = Json.ofTexts d') : d = d' :=
    Dictionary.eq_of_entries (Schema.textObject_injective h)
  refine ⟨.plain nofun, ?_, fun d => ?_, fun d => ?_⟩
  · intro v d
    simp only [Decode.map_eq_ok_iff, textEntries_eq_ok_iff, Schema.stands_texts_iff]
    exact exists_congr fun entries => and_congr_right fun _ =>
      ⟨fun h => h ▸ rfl, fun h => (hinjective h).symm⟩
  · have h := Stands.texts d.entries
    rwa [hentries] at h
  · refine .object (List.pairwise_map.mpr d.sorted) fun m hm => ?_
    obtain ⟨e, -, rfl⟩ := List.mem_map.mp hm
    exact .string _

/-! ## Fields -/

section Fields

variable {entry : String → Option Json} {name : String}

theorem Reads.required_eq_ok_iff (h : Reads s read write) {missing : String → Error} :
    (Record.required name read).assemble missing entry = .ok b ↔
      Holds ⟨name, s, none⟩ (entry name) (write b) := by
  cases hv : entry name with
  | none => simp [Record.required, Holds, hv]
  | some v => simpa [Record.required, Holds, hv] using h.eq_ok_iff

theorem Reads.optional_eq_ok_iff (h : Reads s read write) {default : β}
    {missing : String → Error} :
    (Record.optional name default read).assemble missing entry = .ok b ↔
      Holds ⟨name, s, some (write default)⟩ (entry name) (write b) := by
  cases hv : entry name with
  | none => simp [Record.optional, Holds, hv, h.injective.eq_iff]
  | some v => simpa [Record.optional, Holds, hv] using h.eq_ok_iff

end Fields

end Readers

/-! ## Records -/

theorem canonical_ofMembers {members : List (String × Json)}
    (h : ∀ m ∈ members, Canonical m.2) : Canonical (ofMembers members) :=
  .object (Dictionary.ofList members).sorted fun m hm => h m (Dictionary.mem_of_mem_ofList hm)

/-- What a field and a value for it need for the record to be written and read. -/
structure Slot (f : Field Schema) (w : Json) : Prop where
  wellFormed : f.kind.WellFormed
  default : ∀ u, f.default = some u → f.kind.Stands u u
  stands : f.kind.Stands w w
  canonical : Canonical w

variable {β : Type} {s : Schema} {read : Decode.Reader Json β} {write : β → Json} {name : String}

theorem Reads.slot (h : Reads s read write) (b : β) : Slot ⟨name, s, none⟩ (write b) :=
  ⟨h.wellFormed, nofun, h.stands b, h.canonical b⟩

theorem Reads.slot_optional (h : Reads s read write) (default b : β) :
    Slot ⟨name, s, some (write default)⟩ (write b) :=
  ⟨h.wellFormed, fun _ hu => Option.some.inj hu ▸ h.stands default, h.stands b, h.canonical b⟩

/-- A record has the fields of a list, and what is written of it is a list of values for them. -/
structure Describes (fields : List (Field Schema)) (r : Record Json β) (values : β → List Json) :
    Prop where
  regular : r.Regular
  names_eq : r.names = names fields
  distinct : (names fields).Nodup
  assemble_eq_ok_iff : ∀ {entry : String → Option Json} {b : β},
    r.assemble .missingField entry = .ok b ↔
      List.Forall₂ (fun f w => Holds f (entry f.name) w) fields (values b)
  slots : ∀ b, List.Forall₂ Slot fields (values b)

namespace Describes

variable {fields : List (Field Schema)} {r : Record Json β} {values : β → List Json}
  {v : Json} {b : β}

theorem exists_row_eq (h : Describes fields r values) (b : β) : ∃ value : String → Json,
    values b = fields.map (fun f => value f.name) ∧ row fields (values b) = written fields value
      ∧ ∀ f ∈ fields, Slot f (value f.name) := by
  obtain ⟨value, hvalues⟩ := Schema.exists_value h.distinct (h.slots b).length_eq.symm
  have hslots := h.slots b
  rw [hvalues, List.forall₂_map_right_iff, List.forall₂_same] at hslots
  refine ⟨value, hvalues, ?_, hslots⟩
  rw [hvalues, Schema.row_map]

theorem stands_row_iff (h : Describes fields r values) : Stands (.record fields) v
    (row fields (values b)) ↔ ∃ members, members? (names fields) v = some members
      ∧ Once (names fields) members
      ∧ r.assemble .missingField (Dictionary.find · members) = .ok b := by
  obtain ⟨value, hvalues, hrow, -⟩ := h.exists_row_eq b
  rw [hrow, Schema.stands_record_iff]
  simp only [h.assemble_eq_ok_iff, hvalues, List.forall₂_map_right_iff, List.forall₂_same]
  refine exists_congr fun members => ?_
  constructor
  · rintro ⟨value', hspread, honce, hwritten, hholds⟩
    refine ⟨hspread, honce, fun f hf => ?_⟩
    rw [Schema.eq_of_written_eq h.distinct hwritten hf]
    exact hholds f hf
  · rintro ⟨hspread, honce, hholds⟩
    exact ⟨value, hspread, honce, rfl, hholds⟩

/-- A record is read and written under the schema of its fields. -/
theorem reads [Inhabited β] (h : Describes fields r values) (typeName : String) :
    Reads (.record fields) (r.read typeName) (fun b => row fields (values b)) where
  wellFormed := by
    obtain ⟨value, -, -, hslots⟩ := h.exists_row_eq default
    exact .record h.distinct (fun f hf => (hslots f hf).wellFormed)
      fun f hf => (hslots f hf).default
  eq_ok_iff {v b} := by
    rw [read_eq_ok_iff h.regular (h.names_eq ▸ h.distinct), h.names_eq, h.stands_row_iff]
  stands b := by
    obtain ⟨value, -, hrow, hslots⟩ := h.exists_row_eq b
    rw [hrow]
    exact Schema.stands_written h.distinct fun f hf => (hslots f hf).stands
  canonical b := by
    obtain ⟨value, -, hrow, hslots⟩ := h.exists_row_eq b
    rw [hrow]
    refine canonical_ofMembers fun m hm => ?_
    obtain ⟨f, hf, rfl⟩ := List.mem_map.mp hm
    exact (hslots f hf).canonical

end Describes

/-! ## Exchange without loss -/

/-- Values are exchanged as records with the given fields. -/
structure Exchanges (fields : List (Field Schema)) (encode : β → Json)
    (decode : Decode.Reader Json β) : Prop where
  /-- What is written is decoded as the value that was written. -/
  decode_encode : ∀ b, decode (encode b) = .ok b
  /-- The text of what is written is read as what is written. -/
  parse?_encode : ∀ b, parse? (encode b).pretty = some (encode b)
  /-- A value is decoded as another one just if it says the same as what is written of that one. -/
  decode_eq_ok_iff : ∀ v b, decode v = .ok b ↔ Alike (.record fields) v (encode b)
  /-- Values that say the same are decoded alike. -/
  decode_congr : ∀ v w, Alike (.record fields) v w → ∀ b, decode v = .ok b ↔ decode w = .ok b
  /-- What is accepted is an object, or an array of no more items than fields, and what it is
  decoded as survives another exchange. -/
  decode_again : ∀ v b, decode v = .ok b →
    ((∃ members, v = .object members) ∨ ∃ items, v = .array items ∧ items.length ≤ fields.length)
      ∧ decode (encode b) = .ok b
  /-- An array in which no field is missing is decoded as the object with these fields, and if it
  cannot be decoded, the error is the same. -/
  decode_array : ∀ items, items.length = fields.length →
    decode (.array items) = decode (.object ((names fields).zip items))
  /-- Nothing with a number out of its range is accepted. -/
  decode_overflow : ∀ v, Overflows (.record fields) v → ∃ e, decode v = .error e

/-- A record that is built from its fields is exchanged without loss. -/
theorem Describes.exchanges [Inhabited β] {fields : List (Field Schema)} {r : Record Json β}
    {values : β → List Json} (h : Describes fields r values) (typeName : String) :
    Exchanges fields (fun b => row fields (values b)) (r.read typeName) := by
  have hreads := h.reads typeName
  have haccepts (v : Json) (b : β) :
      r.read typeName v = .ok b ↔ Alike (.record fields) v (row fields (values b)) :=
    hreads.eq_ok_iff.trans (Schema.alike_iff_stands hreads.wellFormed (hreads.stands b)).symm
  refine ⟨hreads.read_write, fun b => parse?_pretty (hreads.canonical b), haccepts,
    fun v w hvw b => ?_, fun v b hb => ⟨?_, hreads.read_write b⟩, fun items hitems => ?_,
    fun v hv => ?_⟩
  · rw [haccepts, haccepts]
    exact ⟨hvw.symm.trans, hvw.trans⟩
  · exact (hreads.eq_ok_iff.mp hb).exists_form
  · rw [← h.names_eq]
    refine read_array h.regular (h.names_eq ▸ h.distinct) ?_
    rw [hitems, h.names_eq, Schema.length_names]
  · cases hread : r.read typeName v with
    | error e => exact ⟨e, rfl⟩
    | ok b => exact absurd (hreads.eq_ok_iff.mp hread) (hv.not_stands _)

end StreamDispatch.Json
