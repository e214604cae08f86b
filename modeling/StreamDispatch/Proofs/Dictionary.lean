import Mathlib.Data.List.Perm.Basic
import StreamDispatch.Dictionary

set_option autoImplicit false

/-! # Entries of dictionaries

A key finds its own entry. A dictionary is made of its entries, in whatever order they are inserted
(`ofList_of_perm`). -/

namespace StreamDispatch.Dictionary

variable {α : Type} {d : Dictionary α} {key : String} {entries : List (String × α)}

/-! ## Keys -/

theorem isSome_find_iff :
    (find key entries).isSome = true ↔ key ∈ entries.map Prod.fst := by
  induction entries with
  | nil => simp [find]
  | cons e rest ih =>
    obtain ⟨k, v⟩ := e
    by_cases hk : k = key
    · simp [find, hk]
    · simp [find, hk, Ne.symm hk, ih]

theorem find_eq_none_iff : find key entries = none ↔ ∀ e ∈ entries, e.1 ≠ key := by
  rw [← Option.not_isSome_iff_eq_none, isSome_find_iff]
  simp only [List.mem_map, not_exists, not_and]

theorem find_cons_self {v : α} : find key ((key, v) :: entries) = some v := if_pos rfl

theorem find_cons_of_ne {k : String} {v : α} (h : k ≠ key) :
    find key ((k, v) :: entries) = find key entries := if_neg h

theorem find_filter {p : String × α → Bool} (h : ∀ v, p (key, v) = true) :
    find key (entries.filter p) = find key entries := by
  induction entries with
  | nil => rfl
  | cons e rest ih =>
    obtain ⟨k, v⟩ := e
    by_cases hk : k = key
    · subst hk
      rw [List.filter_cons_of_pos (h v), find_cons_self, find_cons_self]
    · rw [List.filter_cons, find_cons_of_ne hk]
      split
      · rw [find_cons_of_ne hk, ih]
      · exact ih

theorem mem_keys_iff : key ∈ d.keys ↔ (d.get? key).isSome = true := isSome_find_iff.symm

theorem pairwise_keys (d : Dictionary α) : d.keys.Pairwise (· < ·) :=
  List.pairwise_map.mpr d.sorted

theorem nodup_keys (d : Dictionary α) : d.keys.Nodup :=
  d.pairwise_keys.imp String.ne_of_lt

theorem find_of_mem (hnd : (entries.map Prod.fst).Nodup) {v : α}
    (hmem : (key, v) ∈ entries) : find key entries = some v := by
  induction entries with
  | nil => cases hmem
  | cons e rest ih =>
    obtain ⟨k, w⟩ := e
    obtain ⟨hnew, hrest⟩ := List.nodup_cons.mp hnd
    rcases List.mem_cons.mp hmem with heq | hmem
    · cases heq
      simp [find]
    · have hk : k ≠ key := by
        rintro rfl
        exact hnew (List.mem_map.mpr ⟨_, hmem, rfl⟩)
      simp [find, hk, ih hrest hmem]

theorem get?_of_mem {e : String × α} (hmem : e ∈ d.toList) : d.get? e.1 = some e.2 :=
  find_of_mem d.nodup_keys hmem

/-! ## Dictionaries of lists -/

theorem eq_of_entries {d d' : Dictionary α} (h : d.entries = d'.entries) : d = d' := by
  cases d
  cases d'
  cases h
  rfl

/-- A value for a new key is one entry more. -/
theorem perm_place {value : α} (h : key ∉ entries.map Prod.fst) :
    (place key value entries).Perm ((key, value) :: entries) := by
  induction entries with
  | nil => exact .refl _
  | cons e rest ih =>
    obtain ⟨k, v⟩ := e
    rw [List.map_cons, List.mem_cons, not_or] at h
    rw [place]
    split
    · exact .refl _
    · rw [if_neg h.1]
      exact ((ih h.2).cons _).trans (.swap _ _ _)

/-- Entries with new keys are added to those of a dictionary. -/
theorem perm_foldl_insert (h : ((d.entries ++ entries).map Prod.fst).Nodup) :
    (entries.foldl (fun d e => d.insert e.1 e.2) d).entries.Perm (d.entries ++ entries) := by
  induction entries generalizing d with
  | nil => rw [List.append_nil]; exact .refl _
  | cons e rest ih =>
    have hmiddle : (d.entries ++ e :: rest).Perm (e :: (d.entries ++ rest)) := List.perm_middle
    have hnodup := ((hmiddle.map Prod.fst).nodup_iff).mp h
    rw [List.map_cons, List.nodup_cons, List.map_append, List.mem_append, not_or] at hnodup
    have hinsert : (d.insert e.1 e.2).entries.Perm (e :: d.entries) := perm_place hnodup.1.1
    have hall := hinsert.append_right rest
    refine (ih ?_).trans (hall.trans hmiddle.symm)
    exact (((hall.trans hmiddle.symm).map Prod.fst).nodup_iff).mpr h

theorem mem_foldl_insert {e : String × α}
    (h : e ∈ (entries.foldl (fun d e => d.insert e.1 e.2) d).entries) :
    e ∈ entries ∨ e ∈ d.entries := by
  induction entries generalizing d with
  | nil => exact .inr h
  | cons first rest ih =>
    rcases ih h with h | h
    · exact .inl (List.mem_cons_of_mem _ h)
    · rcases mem_place h with rfl | h
      · exact .inl List.mem_cons_self
      · exact .inr h

theorem mem_of_mem_ofList {e : String × α} (h : e ∈ (ofList entries).entries) : e ∈ entries :=
  (mem_foldl_insert h).resolve_right List.not_mem_nil

/-- Entries with distinct keys are the entries of the dictionary that is made of them. -/
theorem perm_ofList (h : (entries.map Prod.fst).Nodup) : (ofList entries).entries.Perm entries :=
  perm_foldl_insert h

/-- The entries of a dictionary make up this dictionary, in whatever order they are listed. -/
theorem ofList_of_perm (h : entries.Perm d.entries) : ofList entries = d := by
  have hnodup : (entries.map Prod.fst).Nodup := ((h.map Prod.fst).nodup_iff).mpr d.nodup_keys
  have hperm : (ofList entries).entries.Perm d.entries := (perm_ofList hnodup).trans h
  exact eq_of_entries (hperm.eq_of_pairwise
    (fun _ _ _ _ hab hba => absurd hab (String.lt_asymm hba)) (ofList entries).sorted d.sorted)

end StreamDispatch.Dictionary
