import Mathlib.Data.List.Nodup
import StreamDispatch.Json.Document
import StreamDispatch.Proofs.Decode.Record
import StreamDispatch.Proofs.Dictionary

set_option autoImplicit false

/-! # Records in JSON

A record is decoded from the members of an object, or from an array of its fields as if each item
stood under the name of the field at its place (`read_eq_ok_iff`). An array in which no field is
missing is decoded just as that object is, the error included (`read_array`). -/

namespace StreamDispatch

/-! ## Missing fields -/

namespace Decode.Record

variable {σ β γ : Type} {r : Record σ β} {f : Record σ (β → γ)}

/-- Besides, what is said of missing fields has no part in a success, and none where no field is
missing. -/
structure Regular (r : Record σ β) : Prop extends r.Lawful where
  assemble_eq_ok : ∀ {missing missing' : String → Error} {entry : String → Option σ} {b : β},
    r.assemble missing entry = .ok b → r.assemble missing' entry = .ok b
  assemble_of_given : ∀ {missing missing' : String → Error} {entry : String → Option σ},
    (∀ name ∈ r.names, (entry name).isSome = true) →
      r.assemble missing entry = r.assemble missing' entry

theorem Regular.required (name : String) (read : Reader σ β) :
    Regular (.required name read) where
  toLawful := .required name read
  assemble_eq_ok {_ _ entry b} h := by
    cases hv : entry name with
    | none => simp [Record.required, hv] at h
    | some v => simpa [Record.required, hv] using h
  assemble_of_given {_ _ entry} h := by
    obtain ⟨v, hv⟩ := Option.isSome_iff_exists.mp (h name (by simp))
    simp [Record.required, hv]

theorem Regular.optional (name : String) (default : β) (read : Reader σ β) :
    Regular (.optional name default read) where
  toLawful := .optional name default read
  assemble_eq_ok h := h
  assemble_of_given _ := rfl

theorem Regular.map {g : β → γ} (hr : r.Regular) : Regular (g <$> r) where
  toLawful := .map hr.toLawful
  assemble_eq_ok h := by
    obtain ⟨b, hb, hc⟩ := assemble_map_eq_ok.mp h
    exact assemble_map_eq_ok.mpr ⟨b, hr.assemble_eq_ok hb, hc⟩
  assemble_of_given {missing missing' entry} h := by
    have heq : r.assemble missing entry = r.assemble missing' entry := hr.assemble_of_given h
    simp only [Functor.map, heq]

theorem Regular.seq (hf : f.Regular) (hr : r.Regular) : Regular (f <*> r) where
  toLawful := .seq hf.toLawful hr.toLawful
  assemble_eq_ok h := by
    obtain ⟨g, hg, b, hb, hc⟩ := assemble_seq_eq_ok.mp h
    exact assemble_seq_eq_ok.mpr ⟨g, hf.assemble_eq_ok hg, b, hr.assemble_eq_ok hb, hc⟩
  assemble_of_given {missing missing' entry} h := by
    rw [names_seq, List.forall_mem_append] at h
    have hfirst : f.assemble missing entry = f.assemble missing' entry := hf.assemble_of_given h.1
    have hlast : r.assemble missing entry = r.assemble missing' entry := hr.assemble_of_given h.2
    simp only [Seq.seq, hfirst, hlast]

end Decode.Record

namespace Json

open Decode (Record Error Reader)

variable {names : List String} {members members' : List (String × Json)} {items : List Json}
  {name : String} {u v : Json}

/-! ## Members -/

/-- The members of a value that is to be a record with the given fields. The items of an array stand
under the names of the fields, and there are no more of them than fields. -/
def members? (names : List String) : Json → Option (List (String × Json))
  | .object members => some members
  | .array items => if items.length ≤ names.length then some (names.zip items) else none
  | _ => none

/-- No name of a field occurs twice. -/
def Once (names : List String) (members : List (String × Json)) : Prop :=
  members.Pairwise fun a b => a.1 ∈ names → b.1 ≠ a.1

theorem members?_array (h : items.length ≤ names.length) :
    members? names (.array items) = some (names.zip items) :=
  if_pos h

theorem members?_array_eq_some : members? names (.array items) = some members ↔
    items.length ≤ names.length ∧ members = names.zip items :=
  Option.ite_none_right_eq_some.trans (and_congr_right fun _ => Option.some_inj.trans eq_comm)

/-- The two forms of a record. -/
theorem exists_of_members? (h : members? names v = some members) : v = .object members
    ∨ ∃ items, v = .array items ∧ items.length ≤ names.length ∧ members = names.zip items := by
  cases v with
  | object _ =>
    cases h
    exact .inl rfl
  | array items => exact .inr ⟨items, rfl, members?_array_eq_some.mp h⟩
  | _ => cases h

theorem Once.perm (h : Once names members) (hp : members.Perm members') : Once names members' :=
  (hp.pairwise_iff fun {a b} hab hname (heq : a.1 = b.1) => hab (heq ▸ hname) heq.symm).mp h

theorem once_of_nodup (h : (members.map Prod.fst).Nodup) : Once names members :=
  (List.pairwise_map.mp h).imp fun hne _ heq => hne heq.symm

theorem once_entries (d : Dictionary Json) : Once names d.entries := once_of_nodup d.nodup_keys

theorem map_fst_zip_sublist (names : List String) (items : List Json) :
    ((names.zip items).map Prod.fst).Sublist names := by
  induction names generalizing items with
  | nil => exact .refl _
  | cons name names ih =>
    cases items with
    | nil => exact List.nil_sublist _
    | cons v items => exact (ih items).cons_cons name

theorem once_zip (h : names.Nodup) : Once names (names.zip items) :=
  once_of_nodup (h.sublist (map_fst_zip_sublist names items))

theorem once_cons_of_not_mem (h : name ∉ names) :
    Once names ((name, u) :: members) ↔ Once names members :=
  List.pairwise_cons.trans (and_iff_right fun _ _ hmem => absurd hmem h)

theorem once_cons_of_new (h : ∀ m ∈ members, m.1 ≠ name) :
    Once names ((name, u) :: members) ↔ Once names members :=
  List.pairwise_cons.trans (and_iff_right fun m hm _ => h m hm)

theorem once_cons_congr :
    Once names ((name, u) :: members) ↔ Once names ((name, v) :: members) := by
  simp only [Once, List.pairwise_cons]

/-- What stands under the name of a field, told without the order of the members. -/
theorem Once.find_eq_some_iff (h : Once names members) (hname : name ∈ names) :
    Dictionary.find name members = some u ↔ (name, u) ∈ members := by
  induction members with
  | nil => simp [Dictionary.find]
  | cons m rest ih =>
    obtain ⟨k, w⟩ := m
    obtain ⟨hhead, hrest⟩ := List.pairwise_cons.mp h
    by_cases hk : k = name
    · subst hk
      have hnot : (k, u) ∉ rest := fun hmem => hhead _ hmem hname rfl
      simp [Dictionary.find, hnot, eq_comm]
    · simp [Dictionary.find, hk, Ne.symm hk, ih hrest]

theorem Once.find_perm (h : Once names members) (hp : members.Perm members')
    (hname : name ∈ names) : Dictionary.find name members = Dictionary.find name members' :=
  Option.ext fun u => by
    rw [h.find_eq_some_iff hname, (h.perm hp).find_eq_some_iff hname, hp.mem_iff]

/-- The member with the name of a field is put in front of the others. -/
theorem Once.perm_filter (h : Once names members) (hname : name ∈ names) :
    members.Perm (((Dictionary.find name members).map (name, ·)).toList
      ++ members.filter (·.1 ≠ name)) := by
  induction members with
  | nil => exact .refl _
  | cons m rest ih =>
    obtain ⟨k, w⟩ := m
    obtain ⟨hhead, hrest⟩ := List.pairwise_cons.mp h
    by_cases hk : k = name
    · subst hk
      have hothers : rest.filter (·.1 ≠ k) = rest :=
        List.filter_eq_self.mpr fun m hm => by simpa using hhead m hm hname
      rw [List.filter_cons_of_neg (by simp), hothers, Dictionary.find_cons_self]
      exact .refl _
    · rw [List.filter_cons_of_pos (by simpa using hk), Dictionary.find_cons_of_ne hk]
      exact ((ih hrest).cons _).trans List.perm_middle.symm

/-! ## Decoding -/

variable {β γ : Type} {r : Record Json β} {typeName : String}

theorem findEntry_members (name : String) (members : List (String × Json)) :
    Record.findEntry (members.map fun (k, v) => (.string k, v)) name
      = Dictionary.find name members := by
  induction members with
  | nil => rfl
  | cons m rest ih =>
    simp only [List.map_cons, Record.findEntry, Decode.Document.view, shape, Dictionary.find, ih]

theorem findItem_eq_find (names : List String) (items : List Json) (name : String) :
    Record.findItem names items name = Dictionary.find name (names.zip items) := by
  induction names generalizing items with
  | nil => rfl
  | cons n names ih =>
    cases items with
    | nil => rfl
    | cons v items =>
      simp only [Record.findItem, List.zip_cons_cons, Dictionary.find, ih]

theorem legible_members_iff :
    r.Legible (members.map fun (k, v) => (.string k, v)) ↔ Once r.names members := by
  constructor
  · intro h
    exact (List.pairwise_map.mp h.once).imp fun {a b} hab hname (heq : b.1 = a.1) =>
      hab a.1 hname rfl (congrArg Decode.Shape.text heq)
  · intro h
    refine ⟨fun e he => ?_, List.pairwise_map.mpr (h.imp fun {a b} hab name hname ha hb => ?_)⟩
    · obtain ⟨m, -, rfl⟩ := List.mem_map.mp he
      exact ⟨m.1, rfl⟩
    · obtain rfl : a.1 = name := Decode.Shape.text.inj ha
      exact hab hname (Decode.Shape.text.inj hb)

theorem checkItems_eq_ok {fields : List (String × (Json → Except Error Unit))}
    (h : ∀ p ∈ fields.zip items, p.1.2 p.2 = .ok ()) : Record.checkItems fields items = .ok () := by
  induction fields generalizing items with
  | nil => rfl
  | cons field fields ih =>
    cases items with
    | nil => rfl
    | cons v items =>
      obtain ⟨hv, hrest⟩ := List.forall_mem_cons.mp h
      show (field.2 v >>= fun _ => Record.checkItems fields items) = _
      rw [hv]
      exact ih hrest

theorem ofEntries_members_eq_ok_iff (hr : r.Lawful) {b : β} :
    r.ofEntries (members.map fun (k, v) => (.string k, v)) = .ok b ↔
      Once r.names members ∧ r.assemble .missingField (Dictionary.find · members) = .ok b := by
  have hfind : Record.findEntry (members.map fun (k, v) => (.string k, v))
      = (Dictionary.find · members) := funext fun name => findEntry_members name members
  rw [Record.ofEntries_eq_ok_iff hr, legible_members_iff, hfind]

/-- The items are checked one by one before the record is put together, and superfluous ones are
found only then; of a record that is put together this makes no difference. -/
theorem ofItems_eq_ok_iff (hr : r.Regular) (hn : r.names.Nodup) {b : β} :
    r.ofItems typeName items = .ok b ↔ items.length ≤ r.names.length
      ∧ r.assemble .missingField (Dictionary.find · (r.names.zip items)) = .ok b := by
  have hfind : Record.findItem r.names items = (Dictionary.find · (r.names.zip items)) :=
    funext fun name => findItem_eq_find r.names items name
  have hcount : r.names.length = r.fields.length := List.length_map _
  simp only [Record.ofItems, Decode.bind_eq_ok_iff, hfind, hcount]
  constructor
  · rintro ⟨-, -, b', hb', h⟩
    split at h
    · cases h
    · next hlength =>
      cases h
      exact ⟨Nat.not_lt.mp hlength, hr.assemble_eq_ok hb'⟩
  · rintro ⟨hlength, hb⟩
    refine ⟨(), checkItems_eq_ok fun p hp => ?_, b, hr.assemble_eq_ok hb,
      if_neg (Nat.not_lt.mpr hlength)⟩
    have hmem : (p.1.1, p.2) ∈ r.names.zip items := by
      rw [Record.names, List.zip_map_left]
      exact List.mem_map.mpr ⟨p, hp, rfl⟩
    refine hr.decoded hb p.1 (List.of_mem_zip hp).1 p.2 ?_
    exact ((once_zip hn).find_eq_some_iff (List.of_mem_zip hmem).1).mpr hmem

/-- A record is decoded from its members, wherever they come from. -/
theorem read_eq_ok_iff (hr : r.Regular) (hn : r.names.Nodup) {b : β} :
    r.read typeName v = .ok b ↔ ∃ members, members? r.names v = some members
      ∧ Once r.names members
      ∧ r.assemble .missingField (Dictionary.find · members) = .ok b := by
  cases v with
  | object members =>
    have hread : r.read typeName (.object members)
        = r.ofEntries (members.map fun (k, v) => (.string k, v)) := rfl
    rw [hread, ofEntries_members_eq_ok_iff hr.toLawful]
    simp [members?]
  | array items =>
    have hread : r.read typeName (.array items) = r.ofItems typeName items := rfl
    rw [hread, ofItems_eq_ok_iff hr hn]
    simp only [members?_array_eq_some]
    constructor
    · rintro ⟨hlength, hb⟩
      exact ⟨_, ⟨hlength, rfl⟩, once_zip hn, hb⟩
    · rintro ⟨_, ⟨hlength, rfl⟩, -, hb⟩
      exact ⟨hlength, hb⟩
  | null => exact ⟨nofun, nofun⟩
  | bool _ => exact ⟨nofun, nofun⟩
  | integer _ => exact ⟨nofun, nofun⟩
  | float _ => exact ⟨nofun, nofun⟩
  | string _ => exact ⟨nofun, nofun⟩

theorem find?_of_mem_fields (hn : r.names.Nodup) {field : String × (Json → Except Error Unit)}
    (hfield : field ∈ r.fields) : r.fields.find? (·.1 == field.1) = some field := by
  cases hfound : r.fields.find? (·.1 == field.1) with
  | none =>
    have hnone := List.find?_eq_none.mp hfound field hfield
    exact absurd BEq.rfl hnone
  | some other =>
    have hname : other.1 = field.1 := eq_of_beq (List.find?_some hfound :)
    rw [List.inj_on_of_nodup_map hn (List.mem_of_find?_eq_some hfound) hfield hname]

/-- The members of an object in which the fields stand in their order are checked as items are. -/
theorem checkEntries_zip (hn : r.names.Nodup)
    {fields : List (String × (Json → Except Error Unit))} (hfields : fields.Sublist r.fields)
    {seen : List String} (hseen : ∀ field ∈ fields, field.1 ∉ seen) :
    r.checkEntries seen (((fields.map Prod.fst).zip items).map fun (k, v) => (.string k, v))
      = Record.checkItems fields items := by
  induction fields generalizing seen items with
  | nil => rfl
  | cons field fields ih =>
    cases items with
    | nil => rfl
    | cons v items =>
      obtain ⟨hnew, hrest⟩ := List.forall_mem_cons.mp hseen
      have hdistinct : ((field :: fields).map Prod.fst).Nodup := hn.sublist (hfields.map Prod.fst)
      obtain ⟨hother, -⟩ := List.nodup_cons.mp hdistinct
      have hfound := find?_of_mem_fields hn (hfields.subset List.mem_cons_self)
      have hcontains : seen.contains field.1 = false := by simpa using hnew
      simp only [List.map_cons, List.zip_cons_cons, Record.checkEntries, Decode.Document.view,
        shape, hfound, hcontains, Record.checkItems, Bool.false_eq_true, if_false]
      refine congrArg (field.2 v >>= ·) (funext fun _ => ih (List.sublist_of_cons_sublist hfields)
        fun g hg hmem => ?_)
      rcases List.mem_cons.mp hmem with heq | hmem
      · exact hother (heq ▸ List.mem_map_of_mem hg)
      · exact hrest g hg hmem

/-- If no field is missing, an array is decoded as the object with the same fields in their order,
and if it cannot be decoded, the error is the same. -/
theorem read_array (hr : r.Regular) (hn : r.names.Nodup)
    (hlength : items.length = r.names.length) :
    r.read typeName (.array items) = r.read typeName (.object (r.names.zip items)) := by
  have hcount : r.fields.length = items.length := (List.length_map _).symm.trans hlength.symm
  have hgiven : ∀ name ∈ r.names, (Dictionary.find name (r.names.zip items)).isSome = true := by
    intro name hname
    rw [Dictionary.isSome_find_iff, List.map_fst_zip (Nat.le_of_eq hlength.symm)]
    exact hname
  have hitems : Record.findItem r.names items = (Dictionary.find · (r.names.zip items)) :=
    funext fun name => findItem_eq_find r.names items name
  have hentries : Record.findEntry ((r.names.zip items).map fun (k, v) => (.string k, v))
      = (Dictionary.find · (r.names.zip items)) := funext fun name => findEntry_members name _
  have hcheck : r.checkEntries [] ((r.names.zip items).map fun (k, v) => (.string k, v))
      = Record.checkItems r.fields items :=
    checkEntries_zip hn (.refl _) fun _ _ => List.not_mem_nil
  have hassemble (missing : String → Error) :
      r.assemble missing (Dictionary.find · (r.names.zip items))
        = r.assemble .missingField (Dictionary.find · (r.names.zip items)) :=
    hr.assemble_of_given hgiven
  show r.ofItems typeName items
    = r.ofEntries ((r.names.zip items).map fun (k, v) => (.string k, v))
  simp only [Record.ofItems, Record.ofEntries, hitems, hentries, hcheck, hcount, Nat.lt_irrefl,
    if_false, hassemble]
  cases r.assemble .missingField (Dictionary.find · (r.names.zip items)) <;> rfl

end Json

end StreamDispatch
