import StreamDispatch.Decode

set_option autoImplicit false

/-! # When a record is decoded

Entries are decoded as a record exactly when each of their keys is a text, no declared field occurs
twice, and the record can be put together from what they give to its fields. So the order of the
entries has no part in the result, and neither has an entry of any other name; they only decide
which error comes first.

This holds of the records that are built from fields (`Lawful`): what is put together depends on
declared fields alone, and nothing is put together from an entry that cannot be decoded. -/

namespace StreamDispatch.Decode

/-- A step succeeds and so does what follows on its result. -/
theorem bind_eq_ok_iff {ε α β : Type} {x : Except ε α} {f : α → Except ε β} {b : β} :
    x >>= f = .ok b ↔ ∃ a, x = .ok a ∧ f a = .ok b := by
  cases x with
  | error e => exact ⟨nofun, nofun⟩
  | ok a => exact ⟨fun h => ⟨a, rfl, h⟩, fun ⟨_, ha, h⟩ => by cases ha; exact h⟩

theorem map_eq_ok_iff {ε α β : Type} {x : Except ε α} {f : α → β} {b : β} :
    x.map f = .ok b ↔ ∃ a, x = .ok a ∧ f a = b := by
  cases x <;> simp [Except.map]

theorem map_eq_error_iff {ε α β : Type} {x : Except ε α} {f : α → β} {e : ε} :
    x.map f = .error e ↔ x = .error e := by
  cases x <;> simp [Except.map]

namespace Record

open Document (view)

variable {σ β γ : Type} {r : Record σ β}

/-! ## Fields of a record -/

/-- What is put together depends on declared fields alone, and on no entry of a field that cannot be
decoded. -/
structure Lawful (r : Record σ β) : Prop where
  assemble_congr : ∀ {missing : String → Error} {entry entry' : String → Option σ},
    (∀ name ∈ r.names, entry name = entry' name) →
      r.assemble missing entry = r.assemble missing entry'
  decoded : ∀ {missing : String → Error} {entry : String → Option σ} {b : β},
    r.assemble missing entry = .ok b →
      ∀ field ∈ r.fields, ∀ v, entry field.1 = some v → field.2 v = .ok ()

@[simp] theorem names_required (name : String) (read : Reader σ β) :
    (required name read).names = [name] := rfl

@[simp] theorem names_optional (name : String) (default : β) (read : Reader σ β) :
    (optional name default read).names = [name] := rfl

@[simp] theorem fields_map (f : β → γ) (r : Record σ β) : (f <$> r).fields = r.fields := rfl

@[simp] theorem fields_seq (f : Record σ (β → γ)) (r : Record σ β) :
    (f <*> r).fields = f.fields ++ r.fields := rfl

@[simp] theorem names_map (f : β → γ) (r : Record σ β) : (f <$> r).names = r.names := rfl

@[simp] theorem names_seq (f : Record σ (β → γ)) (r : Record σ β) :
    (f <*> r).names = f.names ++ r.names :=
  List.map_append

theorem assemble_map_eq_ok {f : β → γ} {missing : String → Error} {entry : String → Option σ}
    {c : γ} : (f <$> r).assemble missing entry = .ok c ↔
      ∃ b, r.assemble missing entry = .ok b ∧ f b = c := by
  cases h : r.assemble missing entry with
  | error e => simp [Functor.map, bind, Except.bind, h]
  | ok b => simp [Functor.map, bind, Except.bind, pure, Except.pure, h]

theorem assemble_seq_eq_ok {f : Record σ (β → γ)} {missing : String → Error}
    {entry : String → Option σ} {c : γ} : (f <*> r).assemble missing entry = .ok c ↔
      ∃ g, f.assemble missing entry = .ok g ∧ ∃ b, r.assemble missing entry = .ok b ∧ g b = c := by
  cases hf : f.assemble missing entry with
  | error e => simp [Seq.seq, bind, Except.bind, hf]
  | ok g =>
    cases h : r.assemble missing entry with
    | error e => simp [Seq.seq, bind, Except.bind, hf, h]
    | ok b => simp [Seq.seq, bind, Except.bind, pure, Except.pure, hf, h]

theorem Lawful.required (name : String) (read : Reader σ β) : Lawful (.required name read) where
  assemble_congr h := by simp [Record.required, h name (by simp)]
  decoded {_ entry b} h field hfield v hv := by
    obtain rfl := List.mem_singleton.mp hfield
    simp only [Record.required, hv] at h
    simp [h, Except.map]

theorem Lawful.optional (name : String) (default : β) (read : Reader σ β) :
    Lawful (.optional name default read) where
  assemble_congr h := by simp [Record.optional, h name (by simp)]
  decoded {_ entry b} h field hfield v hv := by
    obtain rfl := List.mem_singleton.mp hfield
    simp only [Record.optional, hv] at h
    simp [h, Except.map]

theorem Lawful.map {f : β → γ} (hr : r.Lawful) : Lawful (f <$> r) where
  assemble_congr {missing entry entry'} h := by
    have heq : r.assemble missing entry = r.assemble missing entry' := hr.assemble_congr h
    simp only [Functor.map, heq]
  decoded h field hfield v hv := by
    obtain ⟨b, hb, -⟩ := assemble_map_eq_ok.mp h
    exact hr.decoded hb field hfield v hv

theorem Lawful.seq {f : Record σ (β → γ)} (hf : f.Lawful) (hr : r.Lawful) : Lawful (f <*> r) where
  assemble_congr {missing entry entry'} h := by
    rw [names_seq] at h
    have heq : r.assemble missing entry = r.assemble missing entry' :=
      hr.assemble_congr fun name hmem => h name (List.mem_append_right _ hmem)
    have heq' : f.assemble missing entry = f.assemble missing entry' :=
      hf.assemble_congr fun name hmem => h name (List.mem_append_left _ hmem)
    simp only [Seq.seq, heq, heq']
  decoded h field hfield v hv := by
    obtain ⟨g, hg, b, hb, -⟩ := assemble_seq_eq_ok.mp h
    rcases List.mem_append.mp hfield with hfield | hfield
    · exact hf.decoded hg field hfield v hv
    · exact hr.decoded hb field hfield v hv

theorem mem_fields_of_find? {name : String} {field : String × (σ → Except Error Unit)}
    (h : r.fields.find? (·.1 == name) = some field) : field ∈ r.fields ∧ field.1 = name :=
  ⟨List.mem_of_find?_eq_some h, by simpa using List.find?_some h⟩

theorem not_mem_names_of_find? {name : String}
    (h : r.fields.find? (·.1 == name) = none) : name ∉ r.names := by
  intro hmem
  obtain ⟨field, hfield, rfl⟩ := List.mem_map.mp hmem
  have hne := List.find?_eq_none.mp h field hfield
  simp at hne

/-! ## Entries that can be told apart -/

variable [Document σ] {entries entries' : List (σ × σ)}

/-- Every key is a text, and no declared field occurs twice. -/
structure Legible (r : Record σ β) (entries : List (σ × σ)) : Prop where
  texts : ∀ e ∈ entries, ∃ name, view e.1 = .text name
  once : entries.Pairwise fun a b =>
    ∀ name ∈ r.names, view a.1 = .text name → view b.1 ≠ .text name

theorem Legible.perm (hl : r.Legible entries) (hp : entries.Perm entries') :
    r.Legible entries' where
  texts e he := hl.texts e (hp.mem_iff.mpr he)
  once := (hp.pairwise_iff fun h name hname hb ha => h name hname ha hb).mp hl.once

theorem legible_cons_of_unknown {k v : σ} {name : String} (hk : view k = .text name)
    (hname : name ∉ r.names) : r.Legible ((k, v) :: entries) ↔ r.Legible entries := by
  constructor
  · intro hl
    exact ⟨fun e he => hl.texts e (List.mem_cons_of_mem _ he), (List.pairwise_cons.mp hl.once).2⟩
  · intro hl
    refine ⟨?_, List.pairwise_cons.mpr ⟨?_, hl.once⟩⟩
    · rintro e (_ | ⟨_, he⟩)
      · exact ⟨name, hk⟩
      · exact hl.texts e he
    · intro e _ name' hname' hk'
      cases hk.symm.trans hk'
      exact absurd hname' hname

/-- What a declared field is given, told without the order of the entries. -/
theorem Legible.findEntry_eq_some_iff (hl : r.Legible entries) {name : String}
    (hname : name ∈ r.names) {v : σ} :
    findEntry entries name = some v ↔ ∃ k, view k = .text name ∧ (k, v) ∈ entries := by
  induction entries with
  | nil => simp [findEntry]
  | cons e rest ih =>
    obtain ⟨k, w⟩ := e
    obtain ⟨hhead, hrest⟩ := List.pairwise_cons.mp hl.once
    have hl' : r.Legible rest := ⟨fun e he => hl.texts e (List.mem_cons_of_mem _ he), hrest⟩
    obtain ⟨s, hs⟩ := hl.texts (k, w) List.mem_cons_self
    simp only at hs
    simp only [findEntry, hs]
    split
    · next heq =>
      subst heq
      constructor
      · intro hw
        cases hw
        exact ⟨k, hs, List.mem_cons_self⟩
      · rintro ⟨k', hk', hmem⟩
        rcases List.mem_cons.mp hmem with heq | hmem
        · cases heq; rfl
        · exact absurd hk' (hhead _ hmem s hname hs)
    · next hne =>
      rw [ih hl']
      constructor
      · rintro ⟨k', hk', hmem⟩
        exact ⟨k', hk', List.mem_cons_of_mem _ hmem⟩
      · rintro ⟨k', hk', hmem⟩
        rcases List.mem_cons.mp hmem with heq | hmem
        · cases heq
          cases hs.symm.trans hk'
          exact absurd rfl hne
        · exact ⟨k', hk', hmem⟩

/-! ## Decoding entries -/

/-- Entries that are legible are taken one by one if each field that they give can be decoded. The
list holds the names that have been met before. -/
theorem checkEntries_eq_ok {seen : List String} (hl : r.Legible entries)
    (hseen : ∀ e ∈ entries, ∀ name ∈ seen, view e.1 ≠ .text name)
    (hdecoded : ∀ e ∈ entries, ∀ field ∈ r.fields,
      view e.1 = .text field.1 → field.2 e.2 = .ok ()) :
    r.checkEntries seen entries = .ok () := by
  induction entries generalizing seen with
  | nil => rfl
  | cons e rest ih =>
    obtain ⟨k, v⟩ := e
    obtain ⟨hhead, hrest⟩ := List.pairwise_cons.mp hl.once
    have hl' : r.Legible rest := ⟨fun e he => hl.texts e (List.mem_cons_of_mem _ he), hrest⟩
    rw [List.forall_mem_cons] at hseen hdecoded
    obtain ⟨name, hname⟩ := hl.texts (k, v) List.mem_cons_self
    simp only at hname
    simp only [checkEntries, hname]
    split
    · exact ih hl' hseen.2 hdecoded.2
    · next field check hfind =>
      obtain ⟨hmem, rfl⟩ := mem_fields_of_find? hfind
      have hnew : seen.contains field = false := by
        simpa using fun hmem => hseen.1 field hmem hname
      have hv : check v = .ok () := hdecoded.1 _ hmem hname
      simp only [hnew, hv]
      refine ih hl' ?_ hdecoded.2
      intro e he name hmem'
      rcases List.mem_cons.mp hmem' with rfl | hmem'
      · exact hhead e he _ (List.mem_map_of_mem hmem) hname
      · exact hseen.2 e he name hmem'

/-- Entries that are taken one by one are legible. -/
theorem legible_of_checkEntries {seen : List String} (h : r.checkEntries seen entries = .ok ()) :
    r.Legible entries
      ∧ ∀ e ∈ entries, ∀ name ∈ seen, name ∈ r.names → view e.1 ≠ .text name := by
  induction entries generalizing seen with
  | nil => exact ⟨⟨nofun, .nil⟩, nofun⟩
  | cons e rest ih =>
    obtain ⟨k, v⟩ := e
    simp only [checkEntries] at h
    split at h
    · next name hname =>
      split at h
      · next hfind =>
        have hunknown := not_mem_names_of_find? hfind
        obtain ⟨hl, hseen⟩ := ih h
        refine ⟨(legible_cons_of_unknown hname hunknown).mpr hl, ?_⟩
        rw [List.forall_mem_cons]
        refine ⟨fun name' _ hmem heq => ?_, hseen⟩
        cases hname.symm.trans heq
        exact hunknown hmem
      · next field check hfind =>
        obtain ⟨hmem, rfl⟩ := mem_fields_of_find? hfind
        split at h
        · cases h
        · next hnew =>
          obtain ⟨-, -, h⟩ := bind_eq_ok_iff.mp h
          obtain ⟨hl, hseen⟩ := ih h
          refine ⟨⟨?_, List.pairwise_cons.mpr ⟨?_, hl.once⟩⟩, ?_⟩
          · rw [List.forall_mem_cons]
            exact ⟨⟨_, hname⟩, hl.texts⟩
          · intro e he name hmem' heq
            cases hname.symm.trans heq
            exact hseen e he field List.mem_cons_self hmem'
          · rw [List.forall_mem_cons]
            refine ⟨fun name hmem' _ heq => ?_, fun e he name hmem' => ?_⟩
            · cases hname.symm.trans heq
              exact hnew (by simpa using hmem')
            · exact hseen e he name (List.mem_cons_of_mem _ hmem')
    · cases h

/-- Entries are decoded exactly when they are legible and the record can be put together from what
they give to its fields. -/
theorem ofEntries_eq_ok_iff (hr : r.Lawful) {b : β} : r.ofEntries entries = .ok b ↔
    r.Legible entries ∧ r.assemble .missingField (findEntry entries) = .ok b := by
  simp only [ofEntries, bind_eq_ok_iff]
  constructor
  · rintro ⟨_, hcheck, hb⟩
    exact ⟨(legible_of_checkEntries hcheck).1, hb⟩
  · rintro ⟨hl, hb⟩
    refine ⟨(), checkEntries_eq_ok hl (fun _ _ _ => nofun) ?_, hb⟩
    rintro ⟨k, v⟩ hmem field hfield hk
    refine hr.decoded hb field hfield v ?_
    exact (hl.findEntry_eq_some_iff (List.mem_map_of_mem hfield)).mpr ⟨k, hk, hmem⟩

/-- The order of the entries decides no more than which error comes first. -/
theorem ofEntries_eq_ok_of_perm (hr : r.Lawful) (hp : entries.Perm entries') {b : β}
    (h : r.ofEntries entries = .ok b) : r.ofEntries entries' = .ok b := by
  rw [ofEntries_eq_ok_iff hr] at h ⊢
  obtain ⟨hl, hb⟩ := h
  refine ⟨hl.perm hp, ?_⟩
  rw [← hb]
  refine hr.assemble_congr fun name hname => Option.ext fun v => ?_
  simp only [hl.findEntry_eq_some_iff hname, (hl.perm hp).findEntry_eq_some_iff hname, hp.mem_iff]

/-- An entry of a name that is not declared counts for nothing. -/
theorem ofEntries_cons_of_unknown (hr : r.Lawful) {k v : σ} {name : String}
    (hk : view k = .text name) (hname : name ∉ r.names) {b : β} :
    r.ofEntries ((k, v) :: entries) = .ok b ↔ r.ofEntries entries = .ok b := by
  have hfind (name' : String) (hmem : name' ∈ r.names) :
      findEntry ((k, v) :: entries) name' = findEntry entries name' := by
    have hne : name ≠ name' := fun heq => hname (heq ▸ hmem)
    simp [findEntry, hk, hne]
  rw [ofEntries_eq_ok_iff hr, ofEntries_eq_ok_iff hr, legible_cons_of_unknown hk hname,
    hr.assemble_congr hfind]

end Record

end StreamDispatch.Decode
