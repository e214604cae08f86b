import Mathlib.Data.List.Perm.Basic
import StreamDispatch.Yaml.Overlay

set_option autoImplicit false

/-! # Entries of mappings

What a mapping has under a text, and how that changes when another mapping is laid over it or an
entry is taken out. An overlay keeps what only one of the two mappings has under a text, and lays
the upper value over the lower one where both have one. Taking an entry out changes the order of the
others and nothing else.

A mapping of named entries (`Named`) has nothing but texts as keys, each of them once; overlays and
removals keep it that. -/

namespace StreamDispatch.Yaml.Value

variable {entries entries' upper : List (Value × Value)} {key : Value} {name : String}

/-! ## Texts as keys -/

@[simp] theorem text_same_iff {v : Value} : (Value.text name).same v = true ↔ v = .text name := by
  cases v with
  | text s => simpa [same] using ⟨Eq.symm, Eq.symm⟩
  | _ => simp [same]

@[simp] theorem text_same_eq_false_iff {v : Value} :
    (Value.text name).same v = false ↔ v ≠ .text name := by
  rw [← Bool.not_eq_true, text_same_iff]

@[simp] theorem same_text_iff {v : Value} : v.same (.text name) = true ↔ v = .text name := by
  cases v <;> simp [same]

/-- No text stands twice among the keys. -/
def Once (entries : List (Value × Value)) : Prop :=
  entries.Pairwise fun a b => ∀ name, a.1 = .text name → b.1 ≠ .text name

/-! ## Looking up -/

@[simp] theorem get?_mapping : (mapping entries).get? name = lookup (.text name) entries := rfl

theorem lookup_cons_of_eq {v : Value} : lookup (.text name) ((.text name, v) :: entries) = some v :=
  if_pos (by simp)

theorem lookup_cons_of_ne {k v : Value} (hk : k ≠ .text name) :
    lookup (.text name) ((k, v) :: entries) = lookup (.text name) entries :=
  if_neg (by simpa using hk)

theorem lookup_eq_none_iff :
    lookup (.text name) entries = none ↔ ∀ e ∈ entries, e.1 ≠ .text name := by
  induction entries with
  | nil => simp [lookup]
  | cons e rest ih =>
    obtain ⟨k, v⟩ := e
    by_cases hk : k = .text name
    · subst hk
      simp [lookup_cons_of_eq]
    · rw [lookup_cons_of_ne hk, ih, List.forall_mem_cons]
      simp [hk]

theorem mem_of_lookup {v : Value} (h : lookup (.text name) entries = some v) :
    (.text name, v) ∈ entries := by
  induction entries with
  | nil => cases h
  | cons e rest ih =>
    obtain ⟨k, w⟩ := e
    by_cases hk : k = .text name
    · subst hk
      rw [lookup_cons_of_eq] at h
      cases h
      exact List.mem_cons_self
    · rw [lookup_cons_of_ne hk] at h
      exact List.mem_cons_of_mem _ (ih h)

/-! ## Overlays -/

/-- Whether a value is a mapping, without a tag on it. -/
def IsMapping (v : Value) : Prop := ∃ entries, v = .mapping entries

/-- Only mappings are combined. -/
theorem overlay_eq_upper {v u : Value} (h : ¬(v.IsMapping ∧ u.IsMapping)) :
    v.overlay u = u := by
  cases u with
  | mapping upper =>
    cases v with
    | mapping entries => exact absurd ⟨⟨_, rfl⟩, _, rfl⟩ h
    | _ => rfl
  | _ => rfl

theorem lookup_alterEntry_self {added : Value} {change : Value → Value} :
    lookup (.text name) (alterEntry (.text name) added change entries)
      = some ((lookup (.text name) entries).elim added change) := by
  induction entries with
  | nil => simp [alterEntry, lookup]
  | cons e rest ih =>
    obtain ⟨k, v⟩ := e
    by_cases hk : k = .text name
    · subst hk
      simp [alterEntry, lookup]
    · simp only [alterEntry, text_same_iff, hk, ↓reduceIte, lookup_cons_of_ne hk, ih]

theorem lookup_alterEntry_of_ne {added : Value} {change : Value → Value}
    (hkey : key ≠ .text name) :
    lookup (.text name) (alterEntry key added change entries) = lookup (.text name) entries := by
  induction entries with
  | nil => exact lookup_cons_of_ne hkey
  | cons e rest ih =>
    obtain ⟨k, v⟩ := e
    simp only [alterEntry]
    split
    · next hsame =>
      have hk : k ≠ .text name := fun hk => hkey (same_text_iff.mp (hk ▸ hsame))
      rw [lookup_cons_of_ne hk, lookup_cons_of_ne hk]
    · by_cases hk : k = .text name
      · subst hk
        rw [lookup_cons_of_eq, lookup_cons_of_eq]
      · rw [lookup_cons_of_ne hk, lookup_cons_of_ne hk, ih]

/-- What stands under a text after an overlay. -/
theorem lookup_overlayEntries (hupper : Once upper) :
    lookup (.text name) (overlayEntries entries upper)
      = match lookup (.text name) upper with
        | none => lookup (.text name) entries
        | some v => some ((lookup (.text name) entries).elim v fun old => overlay old v) := by
  induction upper generalizing entries with
  | nil => rfl
  | cons e rest ih =>
    obtain ⟨k, v⟩ := e
    obtain ⟨hhead, hrest⟩ := List.pairwise_cons.mp hupper
    rw [overlayEntries, ih hrest]
    by_cases hk : k = .text name
    · subst hk
      have hnone : lookup (.text name) rest = none :=
        lookup_eq_none_iff.mpr fun e he => hhead e he name rfl
      rw [hnone, lookup_cons_of_eq, lookup_alterEntry_self]
    · rw [lookup_cons_of_ne hk, lookup_alterEntry_of_ne hk]

/-! ## Named entries -/

/-- All keys are texts, and none of them stands there twice. -/
structure Named (entries : List (Value × Value)) : Prop where
  texts : ∀ e ∈ entries, ∃ name, e.1 = .text name
  once : Once entries

theorem mem_alterEntry {added : Value} {change : Value → Value} {e : Value × Value}
    (h : e ∈ alterEntry key added change entries) :
    e.1 = key ∨ ∃ e' ∈ entries, e'.1 = e.1 := by
  induction entries with
  | nil => exact .inl (congrArg Prod.fst (List.mem_singleton.mp h))
  | cons head rest ih =>
    obtain ⟨k, v⟩ := head
    simp only [alterEntry] at h
    split at h
    · rcases List.mem_cons.mp h with rfl | h
      · exact .inr ⟨(k, v), List.mem_cons_self, rfl⟩
      · exact .inr ⟨e, List.mem_cons_of_mem _ h, rfl⟩
    · rcases List.mem_cons.mp h with rfl | h
      · exact .inr ⟨(k, v), List.mem_cons_self, rfl⟩
      · exact (ih h).imp_right fun ⟨e', he', heq⟩ => ⟨e', List.mem_cons_of_mem _ he', heq⟩

theorem Once.alterEntry (h : Once entries) {added : Value} {change : Value → Value} :
    Once (alterEntry key added change entries) := by
  induction entries with
  | nil => exact List.pairwise_singleton _ _
  | cons head rest ih =>
    obtain ⟨k, v⟩ := head
    obtain ⟨hhead, hrest⟩ := List.pairwise_cons.mp h
    simp only [Value.alterEntry]
    split
    · exact List.pairwise_cons.mpr ⟨hhead, hrest⟩
    · next hsame =>
      refine List.pairwise_cons.mpr ⟨?_, ih hrest⟩
      intro e he name hk hname
      rcases mem_alterEntry he with heq | ⟨e', he', heq⟩
      · exact hsame (by rw [← heq, hname, text_same_iff]; exact hk)
      · exact hhead e' he' name hk (heq.trans hname)

theorem Named.overlayEntries (h : Named entries) (hupper : ∀ e ∈ upper, ∃ name, e.1 = .text name) :
    Named (overlayEntries entries upper) := by
  induction upper generalizing entries with
  | nil => exact h
  | cons e rest ih =>
    obtain ⟨k, v⟩ := e
    rw [List.forall_mem_cons] at hupper
    rw [Value.overlayEntries]
    refine ih ⟨?_, h.once.alterEntry⟩ hupper.2
    intro e he
    rcases mem_alterEntry he with heq | ⟨e', he', heq⟩
    · exact heq ▸ hupper.1
    · exact heq ▸ h.texts e' he'

/-- A value that has nothing but named entries. -/
def IsTable (v : Value) : Prop := ∃ entries, v = .mapping entries ∧ Named entries

theorem IsTable.overlay {v u : Value} (hv : v.IsTable) (hu : u.IsTable) :
    (v.overlay u).IsTable := by
  obtain ⟨entries, rfl, hentries⟩ := hv
  obtain ⟨upper, rfl, hupper⟩ := hu
  exact ⟨_, rfl, hentries.overlayEntries hupper.texts⟩

/-- What a table has under a text after another table has been laid over it. -/
theorem IsTable.get?_overlay {v u : Value} (hv : v.IsTable) (hu : u.IsTable) (name : String) :
    (v.overlay u).get? name
      = match u.get? name with
        | none => v.get? name
        | some x => some ((v.get? name).elim x fun old => old.overlay x) := by
  obtain ⟨entries, rfl, -⟩ := hv
  obtain ⟨upper, rfl, hupper⟩ := hu
  exact lookup_overlayEntries hupper.once

/-! ## Removals -/

/-- Taking an entry out leaves all others, in some order. -/
theorem perm_removeEntry (key : Value) (entries : List (Value × Value)) :
    (∀ e ∈ entries, key.same e.1 = false) ∧ removeEntry key entries = entries
    ∨ ∃ e ∈ entries, key.same e.1 = true ∧ entries.Perm (e :: removeEntry key entries) := by
  unfold removeEntry
  split
  · next hnone => exact .inl ⟨by simpa using hnone, rfl⟩
  · next i hi =>
    obtain ⟨hlt, hsame, -⟩ := List.findIdx?_eq_some_iff_getElem.mp hi
    refine .inr ⟨entries[i], List.getElem_mem hlt, hsame, ?_⟩
    split
    · next hlast => simp [List.getLast?_eq_none_iff.mp hlast] at hlt
    · next last hlast =>
      obtain ⟨front, rfl⟩ := List.getLast?_eq_some_iff.mp hlast
      by_cases hfront : i < front.length
      · -- The last entry takes the place of the one that is taken out.
        rw [List.set_append_left _ _ hfront, List.dropLast_concat, List.getElem_append_left hfront]
        calc List.Perm (front ++ [last]) (last :: front) := List.perm_append_singleton last front
          List.Perm _ (last :: front[i] :: front.eraseIdx i) :=
            (List.getElem_cons_eraseIdx_perm hfront).symm.cons last
          List.Perm _ (front[i] :: last :: front.eraseIdx i) := .swap _ _ _
          List.Perm _ (front[i] :: front.set i last) :=
            (List.set_perm_cons_eraseIdx hfront last).symm.cons _
      · obtain rfl : i = front.length := by
          rw [List.length_append, List.length_singleton] at hlt
          omega
        simp

/-- A mapping without the entries of a text; the others keep their order. Any other value is left as
it is. -/
def without (name : String) : Value → Value
  | .mapping entries => .mapping (entries.filter fun e => !(text name).same e.1)
  | v => v

theorem get?_without : ((mapping entries).without name).get? name = none := by
  refine lookup_eq_none_iff.mpr ?_
  intro e he hname
  simpa [hname] using (List.mem_filter.mp he).2

/-- An entry whose key stands there once, and all others. -/
theorem Once.perm_of_lookup (h : Once entries) {v : Value}
    (hv : lookup (.text name) entries = some v) :
    entries.Perm ((.text name, v) :: entries.filter fun e => !(text name).same e.1) := by
  induction entries with
  | nil => cases hv
  | cons e rest ih =>
    obtain ⟨k, w⟩ := e
    obtain ⟨hhead, hrest⟩ := List.pairwise_cons.mp h
    by_cases hk : k = .text name
    · subst hk
      rw [lookup_cons_of_eq] at hv
      cases hv
      have hothers : rest.filter (fun e => !(text name).same e.1) = rest :=
        List.filter_eq_self.mpr fun e he => by simpa using hhead e he name rfl
      simp [hothers]
    · rw [lookup_cons_of_ne hk] at hv
      rw [List.filter_cons_of_pos (by simpa using hk)]
      exact ((ih hrest hv).cons (k, w)).trans (.swap _ _ _)

end StreamDispatch.Yaml.Value
