import StreamDispatch.Proofs.Decode.Record

set_option autoImplicit false

/-! # What a record does not depend on

A record that is built from fields is put together alike from values that are related, if every
field is read alike from them (`Steady`). What stands under names that are not declared may be
changed: neither the record nor the error depends on it (`ofEntries_map`). -/

namespace StreamDispatch.Decode.Record

/-! ## Values that are related -/

section Steady

variable {σ β γ : Type} {R : σ → σ → Prop}

/-- A record is put together alike from values that are related. -/
structure Steady (R : σ → σ → Prop) (r : Record σ β) : Prop where
  assemble_iff : ∀ {missing : String → Error} {entry entry' : String → Option σ} {b : β},
    (∀ name ∈ r.names, Option.Rel R (entry name) (entry' name)) →
      (r.assemble missing entry = .ok b ↔ r.assemble missing entry' = .ok b)

theorem Steady.required {name : String} {read : Reader σ β}
    (h : ∀ v w b, R v w → (read v = .ok b ↔ read w = .ok b)) : Steady R (.required name read) where
  assemble_iff {_ entry entry' b} hrel := by
    have hname := hrel name (by simp)
    simp only [Record.required]
    generalize entry name = x, entry' name = x' at hname
    cases hname with
    | none => rfl
    | some hvw => exact h _ _ b hvw

theorem Steady.optional {name : String} {default : β} {read : Reader σ β}
    (h : ∀ v w b, R v w → (read v = .ok b ↔ read w = .ok b)) :
    Steady R (.optional name default read) where
  assemble_iff {_ entry entry' b} hrel := by
    have hname := hrel name (by simp)
    simp only [Record.optional]
    generalize entry name = x, entry' name = x' at hname
    cases hname with
    | none => rfl
    | some hvw => exact h _ _ b hvw

theorem Steady.map {f : β → γ} {r : Record σ β} (hr : r.Steady R) : Steady R (f <$> r) where
  assemble_iff hrel := by
    simp only [assemble_map_eq_ok]
    exact exists_congr fun b => and_congr_left fun _ => hr.assemble_iff hrel

theorem Steady.seq {f : Record σ (β → γ)} {r : Record σ β} (hf : f.Steady R) (hr : r.Steady R) :
    Steady R (f <*> r) where
  assemble_iff hrel := by
    rw [names_seq, List.forall_mem_append] at hrel
    simp only [assemble_seq_eq_ok, hf.assemble_iff hrel.1, hr.assemble_iff hrel.2]

end Steady

/-! ## Entries of names that are not declared -/

section Unknown

open Document (view)

variable {σ β : Type} [Document σ] {r : Record σ β} {g : σ × σ → σ × σ}
  (hkey : ∀ x, (g x).1 = x.1)
  (hvalue : ∀ x, ∀ name ∈ r.names, view x.1 = .text name → g x = x)

include hkey hvalue

theorem checkEntries_map (seen : List String) (entries : List (σ × σ)) :
    r.checkEntries seen (entries.map g) = r.checkEntries seen entries := by
  induction entries generalizing seen with
  | nil => rfl
  | cons x rest ih =>
    obtain ⟨k, v⟩ := x
    by_cases hx : g (k, v) = (k, v)
    · rw [List.map_cons, hx]
      simp only [checkEntries, ih]
    · have hunknown (name : String) (hname : view k = .text name) :
          r.fields.find? (·.1 == name) = none := by
        cases hfind : r.fields.find? (·.1 == name) with
        | none => rfl
        | some field =>
          obtain ⟨hmem, rfl⟩ := mem_fields_of_find? hfind
          exact absurd (hvalue _ _ (List.mem_map_of_mem hmem) hname) hx
      obtain ⟨w, hw⟩ : ∃ w, g (k, v) = (k, w) := ⟨(g (k, v)).2, Prod.ext (hkey _) rfl⟩
      rw [List.map_cons, hw]
      simp only [checkEntries]
      split
      · next name hname =>
        rw [hunknown name hname]
        exact ih seen
      · rfl

theorem findEntry_map {name : String} (hname : name ∈ r.names) (entries : List (σ × σ)) :
    findEntry (entries.map g) name = findEntry entries name := by
  induction entries with
  | nil => rfl
  | cons x rest ih =>
    rw [List.map_cons]
    by_cases hx : view x.1 = .text name
    · rw [hvalue x name hname hx]
      simp only [findEntry, ih]
    · have hskip (y : σ × σ) (hy : y.1 = x.1) (rest : List (σ × σ)) :
          findEntry (y :: rest) name = findEntry rest name := by
        rw [← hy] at hx
        rw [findEntry]
        split
        · next s hs => exact if_neg fun heq : s = name => hx (heq ▸ hs)
        · rfl
      rw [hskip _ (hkey x), hskip _ rfl, ih]

/-- What stands under names that are not declared may be changed. -/
theorem ofEntries_map (hr : r.Lawful) (entries : List (σ × σ)) :
    r.ofEntries (entries.map g) = r.ofEntries entries := by
  have hassemble : r.assemble .missingField (findEntry (entries.map g))
      = r.assemble .missingField (findEntry entries) :=
    hr.assemble_congr fun name hname => findEntry_map hkey hvalue hname entries
  rw [ofEntries, ofEntries, checkEntries_map hkey hvalue, hassemble]

end Unknown

end StreamDispatch.Decode.Record
