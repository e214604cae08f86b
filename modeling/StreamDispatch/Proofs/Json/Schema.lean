import Mathlib.Algebra.Ring.Int.Defs
import Mathlib.Data.List.Nodup
import StreamDispatch.Proofs.Json.Record

set_option autoImplicit false

/-! # Schemas

A schema says what a type of values looks like in JSON: its fields with their names, their ranges
and their defaults. A value may be given in several forms; one of them is the form in which it is
written, and the others stand for that one (`Stands`).

Forms are also told by rules: two values say the same if they differ in the order of members, in
members of unknown names, in an array that takes the place of an object, or in a default that is
given or left out, at whatever depth (`Alike`). The two descriptions agree (`alike_iff_stands`). A
value with a number that is out of its range stands for nothing (`Overflows.not_stands`). -/

namespace StreamDispatch.Json

/-! ## Fields and forms -/

/-- A field of a record. -/
structure Field (κ : Type) where
  name : String
  kind : κ
  /-- What the field holds if it is not given, as it is written. Without this it must be given. -/
  default : Option Json

/-- What is expected of a value. -/
inductive Schema
  | text
  | truth
  /-- An integer within bounds. -/
  | integer (low high : Int)
  /-- An array of integers within bounds. -/
  | integers (low high : Int)
  /-- An object of texts, of which the last with a name counts. -/
  | texts
  /-- An object of the fields, or an array of them in this order. -/
  | record (fields : List (Field Schema))

namespace Schema

/-- The integers of a word without a sign. -/
abbrev unsigned (bits : Nat) : Schema := .integer 0 (2 ^ bits - 1)

/-- The integers of a word with a sign. -/
abbrev signed (bits : Nat) : Schema := .integer (-2 ^ (bits - 1)) (2 ^ (bits - 1) - 1)

def names (fields : List (Field Schema)) : List String := fields.map Field.name

theorem length_names (fields : List (Field Schema)) : (names fields).length = fields.length :=
  List.length_map _

/-- The values of a schema that have no other form. -/
def Admits : Schema → Json → Prop
  | .text, .string _ => True
  | .truth, .bool _ => True
  | .integer low high, .integer n => low ≤ n ∧ n ≤ high
  | .integers low high, .array items => ∀ v ∈ items, ∃ n, v = .integer n ∧ low ≤ n ∧ n ≤ high
  | _, _ => False

/-- An object of texts. -/
def textObject (entries : List (String × String)) : Json :=
  .object (entries.map fun e => (e.1, .string e.2))

/-- The object with the given values in the fields. -/
def written (fields : List (Field Schema)) (value : String → Json) : Json :=
  .ofMembers (fields.map fun f => (f.name, value f.name))

/-- The object with the values of a list in the fields. -/
def row (fields : List (Field Schema)) (values : List Json) : Json :=
  .ofMembers ((names fields).zip values)

/-- A value stands for another one, which is in the form in which it is written. -/
inductive Stands : Schema → Json → Json → Prop
  | plain {s : Schema} {v : Json} (h : s.Admits v) : Stands s v v
  | texts (entries : List (String × String)) :
    Stands .texts (textObject entries) (.ofTexts (.ofList entries))
  | record {fields : List (Field Schema)} {v : Json} {members : List (String × Json)}
    {value : String → Json} (spread : members? (names fields) v = some members)
    (once : Once (names fields) members)
    (given : ∀ f ∈ fields, ∀ u, Dictionary.find f.name members = some u →
      Stands f.kind u (value f.name))
    (missing : ∀ f ∈ fields, Dictionary.find f.name members = none →
      f.default = some (value f.name)) :
    Stands (.record fields) v (written fields value)

/-- What a field that is given, or not, stands for. -/
def Holds (f : Field Schema) (given : Option Json) (w : Json) : Prop :=
  match given with
  | some u => f.kind.Stands u w
  | none => f.default = some w

/-- The names of a record are distinct, and each default is in the form in which it is written. -/
inductive WellFormed : Schema → Prop
  | plain {s : Schema} (h : ∀ fields, s ≠ .record fields) : WellFormed s
  | record {fields : List (Field Schema)} (distinct : (names fields).Nodup)
    (kinds : ∀ f ∈ fields, WellFormed f.kind)
    (defaults : ∀ f ∈ fields, ∀ u, f.default = some u → f.kind.Stands u u) :
    WellFormed (.record fields)

/-- Two values say the same. -/
inductive Alike : Schema → Json → Json → Prop
  | refl (s : Schema) (v : Json) : Alike s v v
  | symm {s : Schema} {v w : Json} (h : Alike s v w) : Alike s w v
  | trans {s : Schema} {u v w : Json} (h : Alike s u v) (h' : Alike s v w) : Alike s u w
  /-- The members stand in another order. -/
  | reordered {fields : List (Field Schema)} {members members' : List (String × Json)}
    (h : members.Perm members') : Alike (.record fields) (.object members) (.object members')
  /-- A member has a name that is not the name of a field. -/
  | unknown {fields : List (Field Schema)} {members : List (String × Json)} {name : String}
    (h : name ∉ names fields) (u : Json) :
    Alike (.record fields) (.object ((name, u) :: members)) (.object members)
  /-- A field is given its default. -/
  | default {fields : List (Field Schema)} {members : List (String × Json)} {f : Field Schema}
    {u : Json} (hf : f ∈ fields) (hd : f.default = some u) (hnew : ∀ m ∈ members, m.1 ≠ f.name) :
    Alike (.record fields) (.object ((f.name, u) :: members)) (.object members)
  /-- What a field is given says the same. -/
  | field {fields : List (Field Schema)} {members : List (String × Json)} {f : Field Schema}
    {u u' : Json} (hf : f ∈ fields) (h : Alike f.kind u u') :
    Alike (.record fields) (.object ((f.name, u) :: members)) (.object ((f.name, u') :: members))
  /-- The fields are the items of an array, in their order. -/
  | array {fields : List (Field Schema)} {items : List Json} (h : items.length ≤ fields.length) :
    Alike (.record fields) (.array items) (.object ((names fields).zip items))
  /-- Texts make up the same dictionary. -/
  | texts {entries entries' : List (String × String)}
    (h : Dictionary.ofList entries = Dictionary.ofList entries') :
    Alike .texts (textObject entries) (textObject entries')

/-- Somewhere in a value there is a number that is not an integer within the bounds. -/
inductive Overflows : Schema → Json → Prop
  | integer {low high n : Int} (h : n < low ∨ high < n) : Overflows (.integer low high) (.integer n)
  | float (low high : Int) (x : Number.Binary64) : Overflows (.integer low high) (.float x)
  | item {low high : Int} {items : List Json} {u : Json} (hu : u ∈ items)
    (h : Overflows (.integer low high) u) : Overflows (.integers low high) (.array items)
  | member {fields : List (Field Schema)} {members : List (String × Json)} {f : Field Schema}
    {u : Json} (hf : f ∈ fields) (hu : (f.name, u) ∈ members) (h : Overflows f.kind u) :
    Overflows (.record fields) (.object members)
  | element {fields : List (Field Schema)} {items : List Json} {f : Field Schema} {u : Json}
    (hu : (f, u) ∈ fields.zip items) (h : Overflows f.kind u) :
    Overflows (.record fields) (.array items)

/-! ## What a value stands for -/

variable {s : Schema} {fields : List (Field Schema)} {members members' : List (String × Json)}
  {u v v' w : Json} {value value' : String → Json} {f : Field Schema}

theorem textObject_injective {entries entries' : List (String × String)}
    (h : textObject entries = textObject entries') : entries = entries' := by
  have hinjective : Function.Injective fun e : String × String => (e.1, Json.string e.2) := by
    intro x y hxy
    simpa [Prod.ext_iff] using hxy
  exact List.map_injective_iff.mpr hinjective (Json.object.inj h)

theorem stands_texts_iff :
    Stands .texts v w ↔ ∃ entries, v = textObject entries ∧ w = .ofTexts (.ofList entries) := by
  constructor
  · intro h
    cases h with
    | plain h => cases h
    | texts entries => exact ⟨entries, rfl, rfl⟩
  · rintro ⟨entries, rfl, rfl⟩
    exact .texts entries

theorem stands_textObject_iff {entries : List (String × String)} :
    Stands .texts (textObject entries) w ↔ w = .ofTexts (.ofList entries) := by
  rw [stands_texts_iff]
  constructor
  · rintro ⟨entries', heq, rfl⟩
    rw [textObject_injective heq]
  · exact fun hw => ⟨entries, rfl, hw⟩

theorem stands_record_iff : Stands (.record fields) v w ↔ ∃ members value,
    members? (names fields) v = some members ∧ Once (names fields) members
      ∧ w = written fields value
      ∧ ∀ f ∈ fields, Holds f (Dictionary.find f.name members) (value f.name) := by
  constructor
  · intro h
    cases h with
    | plain h => cases h
    | @record _ _ members value spread once given missing =>
      refine ⟨members, value, spread, once, rfl, fun f hf => ?_⟩
      cases hfind : Dictionary.find f.name members with
      | none => exact missing f hf hfind
      | some u => exact given f hf u hfind
  · rintro ⟨members, value, spread, once, rfl, holds⟩
    refine .record spread once (fun f hf u hu => ?_) fun f hf hnone => ?_
    · have h := holds f hf
      rwa [hu] at h
    · have h := holds f hf
      rwa [hnone] at h

theorem stands_object_iff : Stands (.record fields) (.object members) w ↔
    Once (names fields) members ∧ ∃ value, w = written fields value
      ∧ ∀ f ∈ fields, Holds f (Dictionary.find f.name members) (value f.name) := by
  rw [stands_record_iff]
  constructor
  · rintro ⟨_, value, hspread, once, hw, holds⟩
    cases hspread
    exact ⟨once, value, hw, holds⟩
  · rintro ⟨once, value, hw, holds⟩
    exact ⟨members, value, rfl, once, hw, holds⟩

theorem stands_array_iff {items : List Json} : Stands (.record fields) (.array items) w ↔
    items.length ≤ fields.length
      ∧ Stands (.record fields) (.object ((names fields).zip items)) w := by
  rw [stands_record_iff, stands_record_iff]
  constructor
  · rintro ⟨_, value, hspread, h⟩
    obtain ⟨hlength, rfl⟩ := members?_array_eq_some.mp hspread
    exact ⟨length_names fields ▸ hlength, _, value, rfl, h⟩
  · rintro ⟨hlength, _, value, hspread, h⟩
    cases hspread
    exact ⟨_, value, members?_array ((length_names fields).symm ▸ hlength), h⟩

/-- A value stands for no more than one. -/
theorem Stands.unique (h : s.Stands v w) : ∀ {w'}, s.Stands v w' → w = w' := by
  induction h with
  | @plain s v h =>
    intro w' h'
    cases h' with
    | plain _ => rfl
    | texts _ => cases h
    | record _ _ _ _ => cases h
  | texts entries =>
    intro w' h'
    obtain ⟨entries', heq, rfl⟩ := stands_texts_iff.mp h'
    rw [textObject_injective heq]
  | @record fields v members value spread _ _ missing ih =>
    intro w' h'
    obtain ⟨members', value', spread', -, rfl, holds⟩ := stands_record_iff.mp h'
    obtain rfl : members = members' := Option.some.inj (spread.symm.trans spread')
    refine congrArg Json.ofMembers (List.map_congr_left fun f hf => ?_)
    have h := holds f hf
    cases hfind : Dictionary.find f.name members with
    | none =>
      rw [hfind] at h
      rw [Option.some.inj ((missing f hf hfind).symm.trans h)]
    | some u =>
      rw [hfind] at h
      rw [ih f hf u hfind h]

/-- A record is given as an object, or as an array of no more items than fields. -/
theorem Stands.exists_form (h : Stands (.record fields) v w) : (∃ members, v = .object members)
    ∨ ∃ items, v = .array items ∧ items.length ≤ fields.length := by
  obtain ⟨members, -, hspread, -⟩ := stands_record_iff.mp h
  rcases exists_of_members? hspread with rfl | ⟨items, rfl, hlength, -⟩
  · exact .inl ⟨members, rfl⟩
  · exact .inr ⟨items, rfl, by rwa [length_names] at hlength⟩

/-! ## Values of fields -/

theorem get?_ofMembers {name : String} (hn : (members.map Prod.fst).Nodup)
    (hu : (name, u) ∈ members) : (ofMembers members).get? name = some u :=
  Dictionary.get?_of_mem ((Dictionary.perm_ofList hn).mem_iff.mpr hu)

theorem map_fst_fields (fields : List (Field Schema)) (value : String → Json) :
    (fields.map fun f => (f.name, value f.name)).map Prod.fst = names fields :=
  List.map_map

theorem get?_written (hn : (names fields).Nodup) (hf : f ∈ fields) :
    (written fields value).get? f.name = some (value f.name) :=
  get?_ofMembers ((map_fst_fields fields value).symm ▸ hn)
    (List.mem_map_of_mem (f := fun f => (f.name, value f.name)) hf)

/-- What is written tells the value of each field. -/
theorem eq_of_written_eq (hn : (names fields).Nodup)
    (h : written fields value = written fields value') (hf : f ∈ fields) :
    value f.name = value' f.name :=
  Option.some.inj ((get?_written hn hf).symm.trans (h ▸ get?_written hn hf))

/-- A list of values, one for each field, as a function of the names. -/
theorem exists_value (hn : (names fields).Nodup) {values : List Json}
    (hlength : values.length = fields.length) :
    ∃ value : String → Json, values = fields.map fun f => value f.name := by
  induction fields generalizing values with
  | nil => exact ⟨fun _ => .null, List.eq_nil_of_length_eq_zero hlength⟩
  | cons f fields ih =>
    obtain ⟨w, values, rfl⟩ := List.exists_cons_of_length_eq_add_one hlength
    obtain ⟨hnew, hrest⟩ := List.nodup_cons.mp hn
    obtain ⟨value, rfl⟩ := ih hrest (Nat.succ.inj hlength)
    refine ⟨fun name => if name = f.name then w else value name, ?_⟩
    simp only [List.map_cons, if_true]
    refine congrArg _ (List.map_congr_left fun g hg => (if_neg fun heq => ?_).symm)
    exact hnew (heq ▸ List.mem_map_of_mem hg)

theorem row_map (fields : List (Field Schema)) (value : String → Json) :
    row fields (fields.map fun f => value f.name) = written fields value :=
  congrArg ofMembers List.zip_map'

/-! ## Values that say the same -/

theorem eq_of_name_eq (hn : (names fields).Nodup) {g : Field Schema} (hf : f ∈ fields)
    (hg : g ∈ fields) (h : g.name = f.name) : g = f :=
  List.inj_on_of_nodup_map hn hg hf h

theorem stands_object_congr
    (honce : Once (names fields) members ↔ Once (names fields) members')
    (hholds : Once (names fields) members → ∀ f ∈ fields, ∀ w,
      Holds f (Dictionary.find f.name members) w ↔ Holds f (Dictionary.find f.name members') w) :
    Stands (.record fields) (.object members) w ↔ Stands (.record fields) (.object members') w := by
  rw [stands_object_iff, stands_object_iff, ← honce]
  refine and_congr_right fun h => exists_congr fun value => and_congr_right fun _ => ?_
  exact forall₂_congr fun f hf => hholds h f hf _

/-- Of two values that say the same, one stands for what the other one stands for. -/
theorem Alike.stands_iff (h : s.Alike v v') : s.WellFormed → ∀ w, s.Stands v w ↔ s.Stands v' w := by
  induction h with
  | refl _ _ => exact fun _ _ => .rfl
  | symm _ ih => exact fun hs w => (ih hs w).symm
  | trans _ _ ih ih' => exact fun hs w => (ih hs w).trans (ih' hs w)
  | @reordered fields members members' hp =>
    intro hs w
    refine stands_object_congr ⟨fun h => h.perm hp, fun h => h.perm hp.symm⟩ fun h f hf w => ?_
    rw [h.find_perm hp (List.mem_map_of_mem hf)]
  | @unknown fields members name hname u =>
    intro hs w
    refine stands_object_congr (once_cons_of_not_mem hname) fun _ f hf w => ?_
    have hne : name ≠ f.name := fun heq => hname (heq ▸ List.mem_map_of_mem hf)
    rw [Dictionary.find_cons_of_ne hne]
  | @default fields members f u hf hd hnew =>
    rintro (_ | ⟨hn, -, hdefaults⟩) w
    · next h => exact absurd rfl (h fields)
    refine stands_object_congr (once_cons_of_new hnew) fun _ g hg w => ?_
    have hu := hdefaults f hf u hd
    by_cases hname : f.name = g.name
    · obtain rfl := eq_of_name_eq hn hf hg hname.symm
      rw [Dictionary.find_cons_self, Dictionary.find_eq_none_iff.mpr hnew]
      show g.kind.Stands u w ↔ g.default = some w
      rw [hd, Option.some.injEq]
      exact ⟨fun h => hu.unique h, fun h => h ▸ hu⟩
    · rw [Dictionary.find_cons_of_ne hname]
  | @field fields members f u u' hf _ ih =>
    rintro (_ | ⟨hn, hkinds, -⟩) w
    · next h => exact absurd rfl (h fields)
    refine stands_object_congr once_cons_congr fun _ g hg w => ?_
    by_cases hname : f.name = g.name
    · obtain rfl := eq_of_name_eq hn hf hg hname.symm
      rw [Dictionary.find_cons_self, Dictionary.find_cons_self]
      exact ih (hkinds g hf) w
    · rw [Dictionary.find_cons_of_ne hname, Dictionary.find_cons_of_ne hname]
  | @array fields items hlength =>
    intro hs w
    rw [stands_array_iff, and_iff_right hlength]
  | @texts entries entries' h =>
    intro hs w
    rw [stands_textObject_iff, stands_textObject_iff, h]

/-! ## From a form to what is written -/

theorem alike_of_unknown {extra : List (String × Json)} (h : ∀ m ∈ extra, m.1 ∉ names fields) :
    Alike (.record fields) (.object (extra ++ members)) (.object members) := by
  induction extra with
  | nil => exact .refl _ _
  | cons m extra ih =>
    obtain ⟨hm, hextra⟩ := List.forall_mem_cons.mp h
    exact .trans (.unknown hm m.2) (ih hextra)

/-- One field after the other is put in front, in the form in which it is written. The list holds
the fields that have been dealt with, and the members of their names are gone. -/
theorem alike_of_settled (hn : (names fields).Nodup) (once : Once (names fields) members)
    (given : ∀ f ∈ fields, ∀ u, Dictionary.find f.name members = some u →
      Alike f.kind u (value f.name))
    (missing : ∀ f ∈ fields, Dictionary.find f.name members = none →
      f.default = some (value f.name)) {settled : List (Field Schema)}
    (hsettled : settled.Sublist fields) :
    Alike (.record fields) (.object members)
      (.object (settled.map (fun f => (f.name, value f.name))
        ++ members.filter (·.1 ∉ names settled))) := by
  induction settled with
  | nil => simpa [names] using Alike.refl (.record fields) (.object members)
  | cons f settled ih =>
    have hf : f ∈ fields := hsettled.subset List.mem_cons_self
    have hnames : (names (f :: settled)).Nodup := hn.sublist (hsettled.map Field.name)
    obtain ⟨hnew, -⟩ := List.nodup_cons.mp hnames
    refine (ih (List.sublist_of_cons_sublist hsettled)).trans ?_
    rw [List.map_cons, List.cons_append]
    generalize hrest : members.filter (·.1 ∉ names settled) = rest
    generalize hafter : members.filter (·.1 ∉ names (f :: settled)) = after
    have hothers : rest.filter (·.1 ≠ f.name) = after := by
      rw [← hrest, ← hafter, List.filter_filter]
      exact List.filter_congr fun m _ => by simp [names]
    have honce : Once (names fields) rest := hrest ▸ List.Pairwise.filter _ once
    have hfind : Dictionary.find f.name rest = Dictionary.find f.name members :=
      hrest ▸ Dictionary.find_filter fun u => decide_eq_true hnew
    have hperm := honce.perm_filter (List.mem_map_of_mem hf)
    rw [hothers, hfind] at hperm
    cases hu : Dictionary.find f.name members with
    | some u =>
      rw [hu] at hperm
      refine .trans (.reordered ((hperm.append_left _).trans List.perm_middle)) ?_
      exact .field hf (given f hf u hu)
    | none =>
      rw [hu] at hperm
      refine .trans (.reordered (hperm.append_left _)) (.symm (.default hf (missing f hf hu) ?_))
      rw [List.forall_mem_append, List.forall_mem_map]
      refine ⟨fun g hg heq => hnew (heq ▸ List.mem_map_of_mem hg), fun m hm heq => ?_⟩
      rw [← hafter] at hm
      have hm' := List.of_mem_filter hm
      simp [names, heq] at hm'

/-- An object says the same as the one that is written for what it stands for. -/
theorem alike_written (hn : (names fields).Nodup) (once : Once (names fields) members)
    (given : ∀ f ∈ fields, ∀ u, Dictionary.find f.name members = some u →
      Alike f.kind u (value f.name))
    (missing : ∀ f ∈ fields, Dictionary.find f.name members = none →
      f.default = some (value f.name)) :
    Alike (.record fields) (.object members) (written fields value) := by
  have hkeys := map_fst_fields fields value
  refine (alike_of_settled hn once given missing (.refl _)).trans ?_
  refine .trans (.reordered List.perm_append_comm) (.trans (alike_of_unknown fun m hm => ?_) ?_)
  · simpa using List.of_mem_filter hm
  · exact .reordered (Dictionary.perm_ofList (hkeys ▸ hn)).symm

/-- A value says the same as what it stands for. -/
theorem Stands.alike (h : s.Stands v w) : s.WellFormed → s.Alike v w := by
  induction h with
  | plain _ => exact fun _ => .refl _ _
  | texts entries =>
    intro _
    have htexts : Json.ofTexts (.ofList entries) = textObject (Dictionary.ofList entries).entries :=
      rfl
    rw [htexts]
    exact .texts (Dictionary.ofList_of_perm (.refl _)).symm
  | @record fields v members value spread once _ missing ih =>
    rintro (_ | ⟨hn, hkinds, -⟩)
    · next h => exact absurd rfl (h fields)
    have hobject : Alike (.record fields) v (.object members) := by
      rcases exists_of_members? spread with rfl | ⟨items, rfl, hlength, rfl⟩
      · exact .refl _ _
      · exact .array (by rwa [length_names] at hlength)
    exact hobject.trans
      (alike_written hn once (fun f hf u hu => ih f hf u hu (hkinds f hf)) missing)

/-- What is written stands for itself if its fields do. -/
theorem stands_written (hn : (names fields).Nodup)
    (h : ∀ f ∈ fields, f.kind.Stands (value f.name) (value f.name)) :
    Stands (.record fields) (written fields value) (written fields value) := by
  refine stands_object_iff.mpr ⟨once_entries _, value, rfl, fun f hf => ?_⟩
  have hfind : Dictionary.find f.name _ = some (value f.name) := get?_written hn hf
  rw [hfind]
  exact h f hf

/-- The rules tell just what stands for a value that is written. -/
theorem alike_iff_stands (hs : s.WellFormed) (hw : s.Stands w w) : s.Alike v w ↔ s.Stands v w :=
  ⟨fun h => (h.stands_iff hs w).mpr hw, fun h => h.alike hs⟩

/-! ## Numbers out of their range -/

/-- What is given under the name of a field stands for something. -/
theorem Stands.of_mem (h : Stands (.record fields) (.object members) w) (hf : f ∈ fields)
    (hu : (f.name, u) ∈ members) : ∃ w, f.kind.Stands u w := by
  obtain ⟨once, value, -, holds⟩ := stands_object_iff.mp h
  have hfield := holds f hf
  rw [(once.find_eq_some_iff (List.mem_map_of_mem hf)).mpr hu] at hfield
  exact ⟨_, hfield⟩

/-- A value with a number that is out of its range stands for nothing. -/
theorem Overflows.not_stands (h : s.Overflows v) : ∀ w, ¬ s.Stands v w := by
  induction h with
  | @integer low high n hn =>
    rintro w ⟨hrange⟩
    have hrange' : low ≤ n ∧ n ≤ high := hrange
    omega
  | float low high x =>
    rintro w ⟨hrange⟩
    exact hrange
  | @item low high items u hu hover ih =>
    rintro w ⟨hrange⟩
    obtain ⟨n, rfl, hn⟩ := hrange u hu
    exact ih _ (.plain hn)
  | member hf hu _ ih =>
    intro w h
    obtain ⟨w', hw'⟩ := h.of_mem hf hu
    exact ih w' hw'
  | @element fields items f u hu _ ih =>
    intro w h
    have hmem : (f.name, u) ∈ (names fields).zip items := by
      rw [names, List.zip_map_left]
      exact List.mem_map.mpr ⟨(f, u), hu, rfl⟩
    obtain ⟨w', hw'⟩ := (stands_array_iff.mp h).2.of_mem (List.of_mem_zip hu).1 hmem
    exact ih w' hw'

end Schema

end StreamDispatch.Json
