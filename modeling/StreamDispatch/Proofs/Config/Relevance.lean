import Mathlib.Data.List.Pairwise
import StreamDispatch.Proofs.Config.Layers
import StreamDispatch.Proofs.Decode.Relation
import StreamDispatch.Proofs.Yaml.Order

set_option autoImplicit false

/-! # What a configuration depends on

The configuration that a document gives in an environment depends neither on the order of entries
nor on what stands in the sections of other environments or under names of no meaning. Two documents
that differ in nothing else (`Alike`, after such contents have been blanked out by `blanked`) give
the same configuration or none, and if the entries have the same order, the same error
(`ofDocument_of_alike_blanked`). -/

namespace StreamDispatch

open Decode (Reader Record)
open Yaml (Cell Value)
open Yaml.Value (Agree Akin Alike AreAddressed Matched at?)

/-! ## Entries that agree -/

namespace Decode.Record

variable {β : Type} {r : Record Value β} {R : Value → Value → Prop}
  {entries entries' : List (Value × Value)} {name : String}

/-- Entries are legible if every key has an address, and at most one for each declared field. -/
theorem legible_iff (h : Value.Apart entries) : r.Legible entries ↔ AreAddressed entries
    ∧ ∀ name ∈ r.names, ∀ tags tags', (at? (tags, name) entries).isSome = true →
      (at? (tags', name) entries).isSome = true → tags = tags' := by
  constructor
  · intro hl
    refine ⟨fun x hx => ?_, fun name hname tags tags' hat hat' => ?_⟩
    · obtain ⟨name, hshape⟩ := hl.texts x hx
      obtain ⟨tags, htags⟩ := Value.shape_eq_text_iff.mp hshape
      rw [htags]
      rfl
    · obtain ⟨v, hv⟩ := Option.isSome_iff_exists.mp hat
      obtain ⟨w, hw⟩ := Option.isSome_iff_exists.mp hat'
      obtain ⟨k, hk, hmem⟩ := h.at?_eq_some_iff.mp hv
      obtain ⟨l, hl', hmem'⟩ := h.at?_eq_some_iff.mp hw
      by_contra hne
      have hdiffer : (k, v) ≠ (l, w) := by
        rintro heq
        cases heq
        rw [hk] at hl'
        cases hl'
        exact hne rfl
      have hsymm : Std.Symm fun a b : Value × Value => ∀ name ∈ r.names,
          Document.view a.1 = .text name → Document.view b.1 ≠ .text name :=
        ⟨fun a b hab name hname hb ha => hab name hname ha hb⟩
      exact hl.once.forall hmem hmem' hdiffer name hname
        (Value.shape_eq_text_iff.mpr ⟨tags, hk⟩) (Value.shape_eq_text_iff.mpr ⟨tags', hl'⟩)
  · rintro ⟨haddressed, honly⟩
    refine ⟨fun x hx => ?_, h.imp_of_mem ?_⟩
    · obtain ⟨⟨tags, name⟩, htags⟩ := Option.isSome_iff_exists.mp (haddressed x hx)
      exact ⟨name, Value.shape_eq_text_iff.mpr ⟨tags, htags⟩⟩
    · rintro ⟨k, v⟩ ⟨l, w⟩ hmem hmem' hapart name hname hk hl
      obtain ⟨tags, hk⟩ := Value.shape_eq_text_iff.mp hk
      obtain ⟨tags', hl⟩ := Value.shape_eq_text_iff.mp hl
      have hat := h.at?_eq_some_iff.mpr ⟨k, hk, hmem⟩
      have hat' := h.at?_eq_some_iff.mpr ⟨l, hl, hmem'⟩
      obtain rfl := honly name hname tags tags' (by simp [hat]) (by simp [hat'])
      exact hapart _ hk hl

/-- What a declared field is given stands at the only address that it has. -/
theorem findEntry_eq_some_iff (h : Value.Apart entries) (hl : r.Legible entries)
    (hname : name ∈ r.names) {v : Value} :
    findEntry entries name = some v ↔ ∃ tags, at? (tags, name) entries = some v := by
  rw [hl.findEntry_eq_some_iff hname]
  simp only [h.at?_eq_some_iff]
  constructor
  · rintro ⟨k, hk, hmem⟩
    obtain ⟨tags, htags⟩ := Value.shape_eq_text_iff.mp hk
    exact ⟨tags, k, htags, hmem⟩
  · rintro ⟨tags, k, hk, hmem⟩
    exact ⟨k, Value.shape_eq_text_iff.mpr ⟨tags, hk⟩, hmem⟩

/-- Entries that agree are decoded alike. -/
theorem ofEntries_eq_ok_iff_of_agree (hr : r.Lawful) (hs : r.Steady R)
    (h : Agree R entries entries') {b : β} :
    r.ofEntries entries = .ok b ↔ r.ofEntries entries' = .ok b := by
  have hsome (p : List String × String) :
      (at? p entries).isSome = (at? p entries').isSome := by
    have hrel := h.at?_rel p
    generalize at? p entries = x, at? p entries' = x' at hrel
    cases hrel <;> rfl
  have hlegible : r.Legible entries ↔ r.Legible entries' := by
    rw [legible_iff h.apart, legible_iff h.apart', h.addressed_iff]
    simp only [hsome]
  -- Where entries are legible, a field stands at one address only, and entries that agree have
  -- related values there.
  rw [ofEntries_eq_ok_iff hr, ofEntries_eq_ok_iff hr, ← hlegible]
  refine and_congr_right fun hl => hs.assemble_iff fun name hname => ?_
  have hl' := hlegible.mp hl
  cases hfound : findEntry entries name with
  | some v =>
    obtain ⟨tags, hat⟩ := (findEntry_eq_some_iff h.apart hl hname).mp hfound
    have hrel := h.at?_rel (tags, name)
    rw [hat] at hrel
    generalize hat' : at? (tags, name) entries' = x at hrel
    cases hrel with
    | some hvw =>
      rw [(findEntry_eq_some_iff h.apart' hl' hname).mpr ⟨tags, hat'⟩]
      exact .some hvw
  | none =>
    cases hfound' : findEntry entries' name with
    | none => exact .none
    | some w =>
      obtain ⟨tags, hat'⟩ := (findEntry_eq_some_iff h.apart' hl' hname).mp hfound'
      have hat : (at? (tags, name) entries).isSome = true := by simp [hsome, hat']
      obtain ⟨v, hv⟩ := Option.isSome_iff_exists.mp hat
      rw [(findEntry_eq_some_iff h.apart hl hname).mpr ⟨tags, hv⟩] at hfound
      cases hfound

end Decode.Record

/-! ## Values that are decoded alike -/

namespace Yaml.Value

variable {v w u u' : Value} {R : Value → Value → Prop}

/-- Values that look the same, seen through their tags, as far as a configuration goes. Nothing is
read from a sequence. -/
inductive Peers (R : Value → Value → Prop) (v w : Value) : Prop
  | equal (h : v.untagged = w.untagged)
  | sequences {items items' : List Value} (hv : v.untagged = .sequence items)
    (hw : w.untagged = .sequence items')
  | mappings {entries entries' : List (Value × Value)} (hv : v.untagged = .mapping entries)
    (hw : w.untagged = .mapping entries') (h : Agree R entries entries')

theorem Agree.mono {R' : Value → Value → Prop} {entries entries' : List (Value × Value)}
    (hR : ∀ v w, R v w → R' v w) (h : Agree R entries entries') : Agree R' entries entries' where
  apart := h.apart
  apart' := h.apart'
  addressed_iff := h.addressed_iff
  at?_rel p := by
    have hrel := h.at?_rel p
    generalize at? p entries = x, at? p entries' = x' at hrel
    cases hrel with
    | none => exact .none
    | some h => exact .some (hR _ _ h)

theorem hasDistinctKeys_untagged : ∀ v : Value, v.untagged.hasDistinctKeys = v.hasDistinctKeys
  | .tagged _ v => by rw [untagged, hasDistinctKeys, hasDistinctKeys_untagged v]
  | .null | .bool _ | .integer _ | .float _ | .text _ | .sequence _ | .mapping _ => rfl

protected theorem Akin.untagged (h : Akin v w) : Akin v.untagged w.untagged where
  alike := h.alike.untagged
  left := (hasDistinctKeys_untagged v).trans h.left
  right := (hasDistinctKeys_untagged w).trans h.right

theorem Alike.isMapping_iff (h : Alike v w) : v.IsMapping ↔ w.IsMapping := by
  cases h with
  | refl => rfl
  | sequence => exact iff_of_false nofun nofun
  | mapping => exact iff_of_true ⟨_, rfl⟩ ⟨_, rfl⟩
  | tagged => exact iff_of_false nofun nofun

/-- What stands under a text in documents that are alike is alike. -/
theorem Akin.get?_rel (h : Akin v w) (name : String) :
    Option.Rel Akin (v.get? name) (w.get? name) := by
  have hu := h.untagged
  unfold get?
  by_cases hmapping : v.untagged.IsMapping
  · obtain ⟨entries, hv⟩ := hmapping
    rw [hv] at hu ⊢
    obtain ⟨entries', hw, -⟩ := hu.alike.exists_entries
    rw [hw] at hu ⊢
    simpa only [at?_text] using hu.agree.at?_rel ([], name)
  · have hmapping' := hmapping
    rw [hu.alike.isMapping_iff] at hmapping'
    split
    · next entries hv => exact absurd ⟨entries, hv⟩ hmapping
    · split
      · next entries hw => exact absurd ⟨entries, hw⟩ hmapping'
      · exact .none

theorem Akin.peers (h : Akin v w) : Peers Matched v w := by
  have hu := h.untagged
  generalize hv : v.untagged = x, hw : w.untagged = y at hu
  cases hu.alike with
  | refl => exact .equal (hv.trans hw.symm)
  | sequence => exact .sequences hv hw
  | mapping => exact .mappings hv hw (hu.agree.mono fun _ _ => .akin)
  | tagged tag => exact absurd hv (Config.untagged_ne_tagged _ _ v)

theorem Matched.peers (h : Matched v w) : Peers Matched v w := by
  cases h with
  | akin h => exact h.peers
  | @overlay v w u u' h hu =>
    by_cases hmappings : v.IsMapping ∧ u.IsMapping
    · obtain ⟨⟨entries, rfl⟩, upper, rfl⟩ := hmappings
      obtain ⟨entries', rfl, -⟩ := h.alike.exists_entries
      obtain ⟨upper', rfl, -⟩ := hu.alike.exists_entries
      exact .mappings rfl rfl (agree_overlayEntries h hu)
    -- Otherwise nothing is left of the lower ones.
    · have hmappings' := hmappings
      rw [h.alike.isMapping_iff, hu.alike.isMapping_iff] at hmappings'
      rw [overlay_eq_upper hmappings, overlay_eq_upper hmappings']
      exact hu.peers

end Yaml.Value

namespace Config

variable {v w : Value} {c : Config} {e : String} {R : Value → Value → Prop}

theorem Reads.ok_iff_of_peers {β : Type} {read : Reader Value β} {cell : β → Cell} {kind : Kind}
    (h : Reads read cell kind) (hp : Value.Peers R v w) {b : β} :
    read v = .ok b ↔ read w = .ok b := by
  rw [h.eq_ok_iff, h.eq_ok_iff]
  cases hp with
  | equal heq => rw [heq]
  | sequences hv hw =>
    rw [hv, hw]
    cases cell b <;> exact iff_of_false nofun nofun
  | mappings hv hw =>
    rw [hv, hw]
    cases cell b <;> exact iff_of_false nofun nofun

theorem read_untagged {β : Type} (r : Record Value β) (typeName : String) (v : Value) :
    r.read typeName v = r.read typeName v.untagged := by
  simp [Record.read, Decode.wrongType, Decode.Document.view, shape_untagged]

theorem read_ok_iff_of_peers {β : Type} {r : Record Value β} (hr : r.Lawful) (hs : r.Steady R)
    {typeName : String} (hp : Value.Peers R v w) {b : β} :
    r.read typeName v = .ok b ↔ r.read typeName w = .ok b := by
  rw [read_untagged r typeName v, read_untagged r typeName w]
  cases hp with
  | equal heq => rw [heq]
  | sequences hv hw =>
    rw [hv, hw]
    exact iff_of_false nofun nofun
  | mappings hv hw h =>
    rw [hv, hw]
    exact Record.ofEntries_eq_ok_iff_of_agree hr hs h

/-! ## Configurations of documents that are alike -/

section Steady

/-- A reader of a field or a section gets the same from values that are matched. -/
theorem ok_iff_of_matched {β : Type} {read : Reader Value β} {cell : β → Cell} {kind : Kind}
    (h : Reads read cell kind) : ∀ v w b, Matched v w → (read v = .ok b ↔ read w = .ok b) :=
  fun _ _ _ hm => h.ok_iff_of_peers hm.peers

theorem read_ok_iff_of_matched {β : Type} {r : Record Value β} (hr : r.Lawful)
    (hs : r.Steady Matched) (typeName : String) :
    ∀ v w b, Matched v w → (r.read typeName v = .ok b ↔ r.read typeName w = .ok b) :=
  fun _ _ _ hm => read_ok_iff_of_peers hr hs hm.peers

theorem steady_stream : StreamSettings.record.Steady Matched :=
  .seq (.seq (.seq (.seq (.seq (.map (.required (ok_iff_of_matched (reads_text _))))
    (.optional (ok_iff_of_matched (reads_text _))))
    (.optional (ok_iff_of_matched (reads_uint64 _))))
    (.optional (ok_iff_of_matched (reads_uint64 _))))
    (.optional (ok_iff_of_matched (reads_uint64 _))))
    (.optional (ok_iff_of_matched (reads_uint64 _)))

theorem steady_breaker : BreakerSettings.record.Steady Matched :=
  .seq (.seq (.seq (.map (.optional (ok_iff_of_matched reads_int64)))
    (.optional (ok_iff_of_matched reads_int64)))
    (.optional (ok_iff_of_matched (reads_uint64 _))))
    (.optional (ok_iff_of_matched (reads_uint64 _)))

theorem steady_poison : PoisonSettings.record.Steady Matched :=
  .seq (.map (.optional (ok_iff_of_matched reads_bool)))
    (.optional (ok_iff_of_matched (reads_text _)))

theorem steady_instrumentation : InstrumentationSettings.record.Steady Matched :=
  .map (.optional (ok_iff_of_matched reads_bool))

theorem steady_handlers : HandlerSettings.record.Steady Matched :=
  .map (.optional (ok_iff_of_matched (reads_uint64 _)))

theorem steady_record : record.Steady Matched :=
  .seq (.seq (.seq (.seq (.map (.required (read_ok_iff_of_matched lawful_stream steady_stream _)))
    (.optional (read_ok_iff_of_matched lawful_breaker steady_breaker _)))
    (.optional (read_ok_iff_of_matched lawful_poison steady_poison _)))
    (.optional (read_ok_iff_of_matched lawful_instrumentation steady_instrumentation _)))
    (.optional (read_ok_iff_of_matched lawful_handlers steady_handlers _))

end Steady

theorem matched_laid (h : Akin v w) (e : String) : Matched (laid e v) (laid e w) := by
  have hrel := h.get?_rel e
  unfold laid
  generalize v.get? e = x, w.get? e = y at hrel
  cases hrel with
  | none => exact .akin h
  | some hu => exact .overlay h hu

/-- The order of entries makes no difference to the configuration. -/
theorem ofDocument_eq_ok_iff_of_akin (h : Akin v w) (e : String) :
    ofDocument e v = .ok c ↔ ofDocument e w = .ok c := by
  rw [ofDocument_eq_ok_iff_laid, ofDocument_eq_ok_iff_laid]
  exact read_ok_iff_of_matched lawful_record steady_record _ _ _ _ (matched_laid h e)

/-! ## Contents of no influence -/

/-- Whether what stands under a key at the top of a document has no influence on the configuration
in an environment: the key is a text that names neither the environment nor a section of the
configuration. It may name another environment. -/
def isIrrelevant (e : String) : Value → Bool
  | .text name => name ≠ e && !sectionNames.contains name
  | _ => false

def blankEntry (e : String) (x : Value × Value) : Value × Value :=
  if isIrrelevant e x.1 then (x.1, .null) else x

/-- A document with nothing left of what has no influence on the configuration in an environment
but the keys under which it stands. -/
def blanked (e : String) : Value → Value
  | .mapping entries => .mapping (entries.map (blankEntry e))
  | .tagged tag v => .tagged tag (blanked e v)
  | v => v

variable {entries entries' : List (Value × Value)} {x y : Value × Value} {name : String}

@[simp] theorem blankEntry_fst : (blankEntry e x).1 = x.1 := by
  unfold blankEntry
  split <;> rfl

theorem blankEntry_of_relevant (h : isIrrelevant e x.1 = false) : blankEntry e x = x :=
  if_neg (by simp [h])

theorem isIrrelevant_of_mem (hname : name ∈ sectionNames) {k : Value} (hk : k.shape = .text name) :
    isIrrelevant e k = false := by
  cases k with
  | text s =>
    cases hk
    simp [isIrrelevant, hname]
  | _ => rfl

/-- Entries that differ in nothing but contents of no influence have the same key. -/
theorem eq_of_blankEntry_eq (h : blankEntry e x = blankEntry e y) :
    x.1 = y.1 ∧ (isIrrelevant e x.1 = false → x = y) := by
  have hkey : x.1 = y.1 := by simpa using congrArg Prod.fst h
  refine ⟨hkey, fun hx => ?_⟩
  rwa [blankEntry_of_relevant hx, blankEntry_of_relevant (hkey ▸ hx)] at h

theorem map_alterEntry (key added : Value) (change : Value → Value)
    (h : entries.map (blankEntry e) = entries'.map (blankEntry e)) :
    (Value.alterEntry key added change entries).map (blankEntry e)
      = (Value.alterEntry key added change entries').map (blankEntry e) := by
  induction entries generalizing entries' with
  | nil =>
    rw [List.map_nil, eq_comm, List.map_eq_nil_iff] at h
    rw [h]
  | cons x rest ih =>
    cases entries' with
    | nil => cases h
    | cons y rest' =>
      obtain ⟨k, v⟩ := x
      obtain ⟨l, w⟩ := y
      obtain ⟨hhead, hrest⟩ := List.cons.inj h
      obtain ⟨hkey, hsame⟩ := eq_of_blankEntry_eq hhead
      obtain rfl : k = l := hkey
      simp only [Value.alterEntry]
      split
      -- The two values may differ, but only where what becomes of them is blanked out again.
      · have hchanged : blankEntry e (k, change v) = blankEntry e (k, change w) := by
          cases hk : isIrrelevant e k with
          | true => simp [blankEntry, hk]
          | false =>
            cases hsame hk
            rfl
        rw [List.map_cons, List.map_cons, hchanged, hrest]
      · rw [List.map_cons, List.map_cons, hhead, ih hrest]

theorem map_overlayEntries {upper : List (Value × Value)}
    (h : entries.map (blankEntry e) = entries'.map (blankEntry e)) :
    (Value.overlayEntries entries upper).map (blankEntry e)
      = (Value.overlayEntries entries' upper).map (blankEntry e) := by
  induction upper generalizing entries entries' with
  | nil => exact h
  | cons x rest ih =>
    rw [Value.overlayEntries, Value.overlayEntries]
    exact ih (map_alterEntry _ _ _ h)

/-- Which entry is taken out does not depend on the values. -/
theorem map_removeEntry (key : Value) (entries : List (Value × Value)) :
    (Value.removeEntry key entries).map (blankEntry e)
      = Value.removeEntry key (entries.map (blankEntry e)) := by
  have hkeys : (fun x : Value × Value => key.same x.1) ∘ blankEntry e = fun x => key.same x.1 :=
    funext fun x => by simp
  unfold Value.removeEntry
  rw [List.findIdx?_map, hkeys, List.getLast?_map]
  cases entries.findIdx? (fun x => key.same x.1) with
  | none => rfl
  | some n =>
    cases entries.getLast? with
    | none => rfl
    | some last => simp [List.map_set, List.map_dropLast]

theorem blanked_eq_mapping {blank : List (Value × Value)} (h : blanked e v = .mapping blank) :
    ∃ entries, v = .mapping entries ∧ entries.map (blankEntry e) = blank := by
  cases v with
  | mapping entries =>
    cases h
    exact ⟨entries, rfl, rfl⟩
  | _ => cases h

theorem isMapping_iff_of_blanked_eq (h : blanked e v = blanked e w) :
    v.IsMapping ↔ w.IsMapping := by
  constructor
  · rintro ⟨entries, rfl⟩
    obtain ⟨entries', hw, -⟩ := blanked_eq_mapping h.symm
    exact ⟨entries', hw⟩
  · rintro ⟨entries, rfl⟩
    obtain ⟨entries', hv, -⟩ := blanked_eq_mapping h
    exact ⟨entries', hv⟩

theorem blanked_overlay (h : blanked e v = blanked e w) (u : Value) :
    blanked e (v.overlay u) = blanked e (w.overlay u) := by
  by_cases hmappings : v.IsMapping ∧ u.IsMapping
  · obtain ⟨⟨entries, rfl⟩, upper, rfl⟩ := hmappings
    obtain ⟨entries', rfl, heq⟩ := blanked_eq_mapping h.symm
    exact congrArg Value.mapping (map_overlayEntries heq.symm)
  · have hmappings' := hmappings
    rw [isMapping_iff_of_blanked_eq h] at hmappings'
    rw [Value.overlay_eq_upper hmappings, Value.overlay_eq_upper hmappings']

theorem blanked_remove (h : blanked e v = blanked e w) (name : String) :
    blanked e (v.remove name) = blanked e (w.remove name) := by
  by_cases hmapping : v.IsMapping
  · obtain ⟨entries, rfl⟩ := hmapping
    obtain ⟨entries', rfl, heq⟩ := blanked_eq_mapping h.symm
    simp only [Value.remove, blanked, map_removeEntry, heq]
  · have hmapping' := hmapping
    rw [isMapping_iff_of_blanked_eq h] at hmapping'
    have hremove (z : Value) (hz : ¬z.IsMapping) : z.remove name = z := by
      cases z with
      | mapping entries => exact absurd ⟨_, rfl⟩ hz
      | _ => rfl
    rwa [hremove v hmapping, hremove w hmapping']

theorem blanked_foldl_remove (h : blanked e v = blanked e w) (names : List String) :
    blanked e (names.foldl (fun v name => v.remove name) v)
      = blanked e (names.foldl (fun v name => v.remove name) w) := by
  induction names generalizing v w with
  | nil => exact h
  | cons name rest ih => exact ih (blanked_remove h name)

theorem untagged_blanked (e : String) : ∀ v : Value, (blanked e v).untagged = blanked e v.untagged
  | .tagged _ v => by rw [blanked, Value.untagged, Value.untagged, untagged_blanked e v]
  | .null | .bool _ | .integer _ | .float _ | .text _ | .sequence _ | .mapping _ => rfl

theorem get?_blanked (e : String) (v : Value) : (blanked e v).get? e = v.get? e := by
  have hlookup (entries : List (Value × Value)) :
      Value.lookup (.text e) (entries.map (blankEntry e)) = Value.lookup (.text e) entries := by
    induction entries with
    | nil => rfl
    | cons x rest ih =>
      obtain ⟨k, v⟩ := x
      by_cases hk : k = .text e
      · subst hk
        simp [blankEntry, isIrrelevant, Value.lookup]
      · have hk' : (blankEntry e (k, v)).1 ≠ .text e := by simpa using hk
        rw [List.map_cons, Value.lookup_cons_of_ne hk, ← ih]
        exact Value.lookup_cons_of_ne hk'
  rw [Value.get?, Value.get?, untagged_blanked]
  cases v.untagged with
  | mapping entries => exact hlookup entries
  | _ => rfl

theorem decode_blanked (e : String) (v : Value) : decode (blanked e v) = decode v := by
  rw [decode, read_untagged, untagged_blanked, read_untagged _ _ v]
  cases hu : v.untagged with
  | mapping entries =>
    refine Record.ofEntries_map (fun x => blankEntry_fst) ?_ lawful_record entries
    exact fun x name hname hx => blankEntry_of_relevant (isIrrelevant_of_mem hname hx)
  | tagged tag w => exact absurd hu (untagged_ne_tagged tag w v)
  | _ => rfl

/-- Contents of no influence make no difference to the configuration, nor to the error. -/
theorem ofDocument_of_blanked_eq (h : blanked e v = blanked e w) :
    ofDocument e v = ofDocument e w := by
  have hget : v.get? e = w.get? e := by rw [← get?_blanked e v, h, get?_blanked]
  have hlaid : blanked e (laid e v) = blanked e (laid e w) := by
    unfold laid
    rw [← hget]
    cases v.get? e with
    | none => exact h
    | some u => exact blanked_overlay h u
  rw [ofDocument, ofDocument, forEnvironment_eq, forEnvironment_eq, ← decode_blanked e,
    blanked_foldl_remove hlaid, decode_blanked]

/-! ## Documents that differ in nothing of influence -/

theorem blankEntry_blankEntry : blankEntry e (blankEntry e x) = blankEntry e x := by
  cases hx : isIrrelevant e x.1 with
  | true => simp [blankEntry, hx]
  | false => rw [blankEntry_of_relevant hx, blankEntry_of_relevant hx]

@[simp] theorem blanked_blanked (e : String) : ∀ v : Value, blanked e (blanked e v) = blanked e v
  | .tagged tag v => by rw [blanked, blanked, blanked_blanked e v]
  | .mapping entries => by
    have hcomp : blankEntry e ∘ blankEntry e = blankEntry e :=
      funext fun x => blankEntry_blankEntry
    rw [blanked, blanked, List.map_map, hcomp]
  | .null | .bool _ | .integer _ | .float _ | .text _ | .sequence _ => rfl

theorem areDistinct_map_blankEntry (h : Value.areDistinct entries = true) :
    Value.areDistinct (entries.map (blankEntry e)) = true := by
  induction entries with
  | nil => rfl
  | cons x rest ih =>
    obtain ⟨k, v⟩ := x
    obtain ⟨hhead, hk, hv, hrest⟩ := Value.areDistinct_cons.mp h
    have hkeys : ∀ y ∈ rest.map (blankEntry e), y.1.same k = false := by
      intro y hy
      obtain ⟨z, hz, rfl⟩ := List.mem_map.mp hy
      rw [blankEntry_fst]
      exact hhead z hz
    rw [List.map_cons, blankEntry]
    split
    · exact Value.areDistinct_cons.mpr ⟨hkeys, hk, rfl, ih hrest⟩
    · exact Value.areDistinct_cons.mpr ⟨hkeys, hk, hv, ih hrest⟩

theorem hasDistinctKeys_blanked : ∀ {v : Value}, v.hasDistinctKeys = true →
    (blanked e v).hasDistinctKeys = true
  | .tagged _ v, h => hasDistinctKeys_blanked (v := v) h
  | .mapping _, h => areDistinct_map_blankEntry h
  | .null, h | .bool _, h | .integer _, h | .float _, h | .text _, h | .sequence _, h => h

theorem ofDocument_eq_ok_iff_of_alike_blanked (hv : v.hasDistinctKeys = true)
    (hw : w.hasDistinctKeys = true) (h : Alike (blanked e v) (blanked e w)) :
    ofDocument e v = .ok c ↔ ofDocument e w = .ok c := by
  rw [← ofDocument_of_blanked_eq (blanked_blanked e v),
    ← ofDocument_of_blanked_eq (blanked_blanked e w)]
  exact ofDocument_eq_ok_iff_of_akin ⟨h, hasDistinctKeys_blanked hv, hasDistinctKeys_blanked hw⟩ e

/-- Documents that differ in nothing but the order of entries and contents of no influence give the
same configuration or none, and the texts that stand for them do so too. If the order is the same
as well, the errors are the same. -/
theorem ofDocument_of_alike_blanked (e : String) (v w : Value)
    (h : Alike (blanked e v) (blanked e w)) :
    (v.hasDistinctKeys = true → w.hasDistinctKeys = true →
        ∀ c, ofDocument e v = .ok c ↔ ofDocument e w = .ok c)
      ∧ (blanked e v = blanked e w → ofDocument e v = ofDocument e w)
      ∧ ∀ text text' source, Value.parse text = .ok v → Value.parse text' = .ok w →
        (∀ c, parse text e source = .ok c ↔ parse text' e source = .ok c)
          ∧ (blanked e v = blanked e w → parse text e source = parse text' e source) := by
  refine ⟨fun hv hw c => ofDocument_eq_ok_iff_of_alike_blanked hv hw h, ofDocument_of_blanked_eq,
    fun text text' source htext htext' => ⟨fun c => ?_, fun heq => ?_⟩⟩
  · rw [parse_eq_ok_iff htext, parse_eq_ok_iff htext']
    exact ofDocument_eq_ok_iff_of_alike_blanked (Value.hasDistinctKeys_of_parse htext)
      (Value.hasDistinctKeys_of_parse htext') h
  · simp only [parse, htext, htext', ofDocument_of_blanked_eq heq]

/-- A document with a section for another environment and an entry of no meaning. -/
def annotatedSample : Value :=
  .mapping [(.text "dispatcher",
      .mapping [(.text "stream_name", .text "orders"), (.text "max_batch_size", .integer 7)]),
    (.text "production", .mapping [(.text "dispatcher", .text "none")]),
    (.text "notes", .text "first"),
    (.text "test", .mapping [(.text "poison", .mapping [(.text "enabled", .bool false)])])]

/-- The same in another order, with other contents of no influence. -/
def rearrangedSample : Value :=
  .mapping [(.text "test", .mapping [(.text "poison", .mapping [(.text "enabled", .bool false)])]),
    (.text "notes", .sequence [.integer 2]),
    (.text "production", .null),
    (.text "dispatcher",
      .mapping [(.text "max_batch_size", .integer 7), (.text "stream_name", .text "orders")])]

theorem ofDocument_of_alike_blanked_rearranged :
    (annotatedSample.hasDistinctKeys = true ∧ rearrangedSample.hasDistinctKeys = true
        ∧ Alike (blanked "test" annotatedSample) (blanked "test" rearrangedSample))
      ∧ ∃ c, ofDocument "test" annotatedSample = .ok c
        ∧ ofDocument "test" rearrangedSample = .ok c := by
  have hannotated : annotatedSample.hasDistinctKeys = true := by decide +kernel
  have hrearranged : rearrangedSample.hasDistinctKeys = true := by decide +kernel
  have hpair (x y : Value) : List.Forall₂ Alike [x, y] [x, y] :=
    .cons (.refl x) (.cons (.refl y) .nil)
  have hdispatcher : Alike
      (.mapping [(.text "stream_name", .text "orders"), (.text "max_batch_size", .integer 7)])
      (.mapping [(.text "max_batch_size", .integer 7), (.text "stream_name", .text "orders")]) :=
    .mapping (List.reverse_perm _).symm (hpair _ _) (hpair _ _)
  have halike : Alike (blanked "test" annotatedSample) (blanked "test" rearrangedSample) :=
    .mapping (List.reverse_perm _).symm
      (.cons (.refl _) (.cons (.refl _) (.cons (.refl _) (.cons (.refl _) .nil))))
      (.cons (.refl _) (.cons (.refl _) (.cons (.refl _) (.cons hdispatcher .nil))))
  obtain ⟨hiff, -⟩ := ofDocument_of_alike_blanked "test" _ _ halike
  obtain ⟨c, hc⟩ : ∃ c, ofDocument "test" annotatedSample = .ok c := ⟨_, rfl⟩
  exact ⟨⟨hannotated, hrearranged, halike⟩, c, hc, (hiff hannotated hrearranged c).mp hc⟩

end Config

end StreamDispatch
