import StreamDispatch.Proofs.Poison.Store

set_option autoImplicit false

/-! # Where reports are filed

The names of the stream, the partition and the offset of a report come from outside. Each of them is
cleaned before it becomes a part of a path (`isSafe_safeName`), so whatever they are, the files of a
report lie exactly four names below the root, below the directory of its failure mode. The
identifier at the end of a file name tells the files of any two reports apart, in all three forms of
the name. -/

namespace StreamDispatch

open StreamDispatch.Path (IsName)

/-! ## Cleaned names -/

/-- A name that leads from a directory to one place in it, and nowhere else. -/
structure IsSafe (name : String) : Prop where
  ne_empty : name ≠ ""
  ne_dot : name ≠ "."
  ne_up : name ≠ ".."
  separators : ∀ c ∈ name.toList, c ≠ '/' ∧ c ≠ '\\' ∧ c ≠ ':'

theorem isSeparator_eq_false_iff {c : Char} :
    isSeparator c = false ↔ c ≠ '/' ∧ c ≠ '\\' ∧ c ≠ ':' := by
  simp [isSeparator, and_assoc]

theorem separators_of_any {name : String} (h : name.toList.any isSeparator = false) :
    ∀ c ∈ name.toList, c ≠ '/' ∧ c ≠ '\\' ∧ c ≠ ':' :=
  fun c hc => isSeparator_eq_false_iff.mp (Bool.eq_false_iff.mpr (List.any_eq_false.mp h c hc))

theorem IsSafe.isName {name : String} (h : IsSafe name) : IsName name where
  slash hslash := (h.separators _ hslash).1 rfl
  ne_empty := h.ne_empty
  ne_dot := h.ne_dot

/-- Cleaning a name makes it safe. -/
theorem isSafe_safeName (name : String) : IsSafe (safeName name) := by
  simp only [safeName]
  split
  · exact ⟨by decide, by decide, by decide, separators_of_any (by decide)⟩
  · next hcleaned =>
    rw [not_or, not_or] at hcleaned
    refine ⟨hcleaned.1, hcleaned.2.1, hcleaned.2.2, fun c hc => ?_⟩
    rw [String.toList_ofList] at hc
    obtain ⟨d, -, rfl⟩ := List.mem_map.mp hc
    split
    · decide
    · next hd => exact isSeparator_eq_false_iff.mp (Bool.eq_false_iff.mpr hd)

/-- A name that is safe already is left as it is. -/
theorem safeName_of_isSafe {name : String} (h : IsSafe name) : safeName name = name := by
  have hkept : name.toList.map (fun c => if isSeparator c then '_' else c) = name.toList :=
    (List.map_congr_left fun c hc => by
      simp [isSeparator_eq_false_iff.mpr (h.separators c hc)]).trans (List.map_id _)
  have hnone : ¬(name = "" ∨ name = "." ∨ name = "..") := by
    rintro (heq | heq | heq)
    · exact h.ne_empty heq
    · exact h.ne_dot heq
    · exact h.ne_up heq
  simp only [safeName]
  rw [hkept, String.ofList_toList]
  exact if_neg hnone

/-- Cleaning a name again changes nothing. -/
theorem safeName_safeName (name : String) : safeName (safeName name) = safeName name :=
  safeName_of_isSafe (isSafe_safeName name)

theorem FailureMode.isSafe_name (m : FailureMode) : IsSafe m.name := by
  cases m <;> exact ⟨by decide, by decide, by decide, separators_of_any (by decide)⟩

theorem FailureMode.name_injective {m m' : FailureMode} (h : m.name = m'.name) : m = m' := by
  have hname := ofName?_name m
  rw [h, ofName?_name] at hname
  exact (Option.some.inj hname).symm

/-! ## Identifiers -/

/-- The identifier of a report: thirty-two hexadecimal digits, with letters in lower case. -/
structure IsIdentifier (id : String) : Prop where
  length : id.toList.length = 32
  digits : ∀ c ∈ id.toList, '0' ≤ c ∧ c ≤ '9' ∨ 'a' ≤ c ∧ c ≤ 'f'

theorem IsIdentifier.separators {id : String} (hid : IsIdentifier id) :
    ∀ c ∈ id.toList, c ≠ '/' ∧ c ≠ '\\' ∧ c ≠ ':' := by
  intro c hc
  have hdigit := hid.digits c hc
  refine ⟨?_, ?_, ?_⟩ <;> rintro rfl <;> revert hdigit <;> decide

/-- An identifier ends in a digit. -/
theorem IsIdentifier.reverse_eq {id : String} (hid : IsIdentifier id) : ∃ c cs,
    id.toList.reverse = c :: cs ∧ ('0' ≤ c ∧ c ≤ '9' ∨ 'a' ≤ c ∧ c ≤ 'f') := by
  have hlength : 0 < id.toList.reverse.length := by
    rw [List.length_reverse, hid.length]
    decide
  obtain ⟨c, cs, hcs⟩ := List.exists_cons_of_length_pos hlength
  exact ⟨c, cs, hcs, hid.digits c (List.mem_reverse.mp (hcs ▸ List.mem_cons_self))⟩

theorem IsIdentifier.slash {id : String} (hid : IsIdentifier id) : '/' ∉ id.toList := fun h =>
  (hid.separators _ h).1 rfl

namespace PoisonReport

variable {r r' : PoisonReport} {root id id' : String} {ending ending' : String}

theorem isSafe_fileName (r : PoisonReport) (hid : IsIdentifier id) (he : ending ∈ endings) :
    IsSafe (r.fileName id ++ ending) := by
  obtain ⟨hname, hup⟩ := isName_fileName r hid.slash he
  refine ⟨hname.ne_empty, hname.ne_dot, hup, fun c hc => ?_⟩
  have hending : ∀ e ∈ endings, e.toList.any isSeparator = false := by decide
  rw [toList_fileName, List.mem_append, List.mem_cons, List.mem_append] at hc
  rcases hc with hc | rfl | hc | hc
  · exact (isSafe_safeName _).separators c hc
  · decide
  · exact hid.separators c hc
  · exact separators_of_any (hending ending he) c hc

theorem isSafe_bareFileName (r : PoisonReport) (hid : IsIdentifier id) :
    IsSafe (r.fileName id) := by
  have hsafe : IsSafe (r.fileName id ++ "") := isSafe_fileName r hid List.mem_cons_self
  rwa [String.append_empty] at hsafe

/-- The end of a file name: the last characters of the ending, or of the identifier. -/
theorem reverse_fileName : (r.fileName id ++ ending).toList.reverse
    = ending.toList.reverse
      ++ (id.toList.reverse ++ '_' :: (safeName r.context.offset).toList.reverse) := by
  rw [toList_fileName]
  simp

/-- File names with different identifiers differ, whatever their endings are. -/
theorem fileName_ne (hid : IsIdentifier id) (hid' : IsIdentifier id') (hne : id ≠ id')
    (he : ending ∈ endings) (he' : ending' ∈ endings) :
    r.fileName id ++ ending ≠ r'.fileName id' ++ ending' := by
  intro heq
  have hreverse := congrArg (fun s => s.toList.reverse) heq
  simp only [reverse_fileName] at hreverse
  by_cases hsame : ending = ending'
  · subst hsame
    have hlength : id.toList.reverse.length = id'.toList.reverse.length := by
      rw [List.length_reverse, List.length_reverse, hid.length, hid'.length]
    have hids := List.append_inj_left (List.append_cancel_left hreverse) hlength
    exact hne (String.toList_inj.mp (List.reverse_inj.mp hids))
  · -- No digit is the last letter of an ending, and the endings differ in their last letters.
    have hlast {c : Char} (hc : '0' ≤ c ∧ c ≤ '9' ∨ 'a' ≤ c ∧ c ≤ 'f') : 'n' ≠ c := by
      rintro rfl
      revert hc
      decide
    obtain ⟨c, cs, hcs, hdigit⟩ := hid.reverse_eq
    obtain ⟨c', cs', hcs', hdigit'⟩ := hid'.reverse_eq
    have hc := hlast hdigit
    have hc' := hlast hdigit'
    rw [hcs, hcs'] at hreverse
    simp only [endings, List.mem_cons, List.not_mem_nil, or_false] at he he'
    rcases he with rfl | rfl | rfl <;> rcases he' with rfl | rfl | rfl <;> simp_all

/-! ## Paths of reports -/

/-- The names that lead from the root to a file of a report. -/
def components (r : PoisonReport) (id ending : String) : List String :=
  r.directories ++ [r.fileName id ++ ending]

theorem isSafe_of_mem_components (hid : IsIdentifier id) (he : ending ∈ endings) :
    ∀ n ∈ r.components id ending, IsSafe n := by
  intro n hn
  simp only [components, directories, List.mem_append, List.mem_cons, List.not_mem_nil,
    or_false] at hn
  rcases hn with (rfl | rfl | rfl) | rfl
  · exact r.mode.isSafe_name
  · exact isSafe_safeName _
  · exact isSafe_safeName _
  · exact isSafe_fileName r hid he

/-- The path of a file is made by joining four names to the root. -/
theorem path_eq_join (hid : IsIdentifier id) :
    r.path root id ++ ending = (r.components id ending).foldl Path.join root := by
  rw [path, Path.join_append _ _ (isSafe_bareFileName r hid).ne_empty, components,
    List.foldl_append, directory, List.foldl_cons, List.foldl_nil]

end PoisonReport

/-- Safe names that are joined to a path are the last of its names. -/
theorem Path.names_foldl_join {ns : List String} (hns : ∀ n ∈ ns, IsSafe n) (base : String) :
    names (ns.foldl join base) = names base ++ ns := by
  induction ns generalizing base with
  | nil => exact (List.append_nil _).symm
  | cons n ns ih =>
    rw [List.forall_mem_cons] at hns
    rw [List.foldl_cons, ih hns.2, names_join base hns.1.isName, List.append_assoc]
    rfl

theorem Path.place_foldl_join {ns : List String} (hns : ∀ n ∈ ns, IsSafe n) (base : String) :
    place (ns.foldl join base) = place base ++ ns := by
  induction ns generalizing base with
  | nil => exact (List.append_nil _).symm
  | cons n ns ih =>
    rw [List.forall_mem_cons] at hns
    rw [List.foldl_cons, ih hns.2, place_join base hns.1.isName hns.1.ne_up, List.append_assoc]
    rfl

/-! ## What keeping a report may write -/

/-- Making directories makes no files. -/
theorem FileTree.file_of_makeDirectories {t t' : FileTree} {path : String} {p : List String}
    {result : Except FileError Unit} {content : Payload}
    (hmake : t.makeDirectories path = (t', result)) (h : t'.get? p = some (.file content)) :
    t.get? p = some (.file content) := by
  obtain ⟨dirs, -, hgains⟩ := gains_makeDirectories t path
  rw [hmake] at hgains
  rw [hgains.get?_eq] at h
  cases he : t.get? p with
  | some e => rwa [he, Option.some_or] at h
  | none =>
    rw [he, Option.none_or] at h
    split at h <;> cases h

/-- Every file there is after some have been written was there before, or is one of them. -/
theorem FileTree.file_of_writeAll {files : List (String × Payload)} {t : FileTree}
    {p : List String} {content : Payload}
    (h : (t.writeAll files).1.get? p = some (.file content)) :
    t.get? p = some (.file content) ∨ ∃ f ∈ files, p = Path.place f.1 := by
  induction files generalizing t with
  | nil => exact .inl h
  | cons f rest ih =>
    rw [writeAll] at h
    cases hwrite : t.write f.1 f.2 with
    | error e =>
      rw [hwrite] at h
      exact .inl h
    | ok t₁ =>
      rw [hwrite] at h
      rcases ih h with h | ⟨g, hg, hp⟩
      · by_cases hp : p = Path.place f.1
        · exact .inr ⟨f, List.mem_cons_self, hp⟩
        · rw [get?_write hwrite, if_neg hp] at h
          exact .inl h
      · exact .inr ⟨g, List.mem_cons_of_mem _ hg, hp⟩

namespace PoisonReport

variable {r : PoisonReport} {root id : String} {t : FileTree}

theorem exists_ending_of_mem_files {f : String × Payload} (hf : f ∈ r.files root id) :
    ∃ ending ∈ endings, f.1 = r.path root id ++ ending := by
  simp only [files, List.mem_append, List.mem_cons, List.not_mem_nil, or_false,
    Option.mem_toList, Option.map_eq_some_iff] at hf
  rcases hf with (rfl | rfl) | ⟨e, -, rfl⟩
  · exact ⟨"", by decide, by rw [String.append_empty]⟩
  · exact ⟨".json", by decide, rfl⟩
  · exact ⟨"_exception", by decide, rfl⟩

/-- Every file there is after a report has been kept, or could not be kept, was there before or is a
file of the report. -/
theorem file_of_store (hid : IsIdentifier id) {p : List String} {content : Payload}
    (h : (r.store root id t).1.get? p = some (.file content)) :
    t.get? p = some (.file content)
      ∨ ∃ ending ∈ endings, p = Path.place root ++ r.components id ending := by
  unfold store at h
  split at h
  · next t₁ e hmake => exact .inl (FileTree.file_of_makeDirectories hmake h)
  · next t₁ u hmake =>
    rcases FileTree.file_of_writeAll h with h | ⟨f, hf, rfl⟩
    · exact .inl (FileTree.file_of_makeDirectories hmake h)
    · obtain ⟨ending, he, hpath⟩ := exists_ending_of_mem_files hf
      refine .inr ⟨ending, he, ?_⟩
      rw [hpath, path_eq_join hid, Path.place_foldl_join (isSafe_of_mem_components hid he)]

/-- A report is filed below its failure mode. -/
structure IsFiledBelowMode (r : PoisonReport) (root id : String) : Prop where
  /-- The path of each file has the names of the root and four more, and leads there. -/
  path : ∀ ending ∈ endings,
    Path.names (r.path root id ++ ending) = Path.names root ++ [r.mode.name,
      safeName r.context.stream, safeName r.context.partition, r.fileName id ++ ending]
    ∧ Path.place (r.path root id ++ ending) = Path.place root ++ [r.mode.name,
      safeName r.context.stream, safeName r.context.partition, r.fileName id ++ ending]
  safe : ∀ ending ∈ endings, IsSafe r.mode.name ∧ IsSafe (safeName r.context.stream)
    ∧ IsSafe (safeName r.context.partition) ∧ IsSafe (r.fileName id ++ ending)
  files : ∀ f ∈ r.files root id, ∃ ending ∈ endings, f.1 = r.path root id ++ ending
  /-- Whatever becomes of the report, every file there is afterwards was there before or lies below
  the directory of the failure mode, and of no other one. -/
  inside : ∀ (t : FileTree) (p : List String) (content : Payload),
    (r.store root id t).1.get? p = some (.file content) → t.get? p = some (.file content)
      ∨ (∃ stream partition name, p = Path.place root ++ [r.mode.name, stream, partition, name])
        ∧ ∀ m : FailureMode, Path.place root ++ [m.name] <+: p → m = r.mode

theorem isFiledBelowMode (r : PoisonReport) (root : String) (hid : IsIdentifier id) :
    r.IsFiledBelowMode root id where
  path ending he := by
    have hsafe := isSafe_of_mem_components (r := r) hid he
    rw [path_eq_join hid]
    exact ⟨Path.names_foldl_join hsafe root, Path.place_foldl_join hsafe root⟩
  safe ending he :=
    ⟨r.mode.isSafe_name, isSafe_safeName _, isSafe_safeName _, isSafe_fileName r hid he⟩
  files f hf := exists_ending_of_mem_files hf
  inside t p content h := by
    refine (file_of_store hid h).imp_right ?_
    rintro ⟨ending, -, rfl⟩
    refine ⟨⟨_, _, _, rfl⟩, fun m hm => FailureMode.name_injective ?_⟩
    have hmode := (List.prefix_append_right_inj _).mp hm
    exact (List.cons_prefix_cons.mp hmode).1

/-- Whatever the names in a report are, its files are filed below its failure mode and are told
apart from those of any report with another identifier; and cleaning a name makes it safe, changes
no safe name, and changes nothing when it is done again. -/
theorem filed_safely (r : PoisonReport) (root : String) (hid : IsIdentifier id) :
    r.IsFiledBelowMode root id
      ∧ (∀ (r' : PoisonReport) (id' : String), IsIdentifier id' → id ≠ id' →
        ∀ ending ∈ endings, ∀ ending' ∈ endings,
          r.fileName id ++ ending ≠ r'.fileName id' ++ ending')
      ∧ ∀ name, IsSafe (safeName name) ∧ (IsSafe name → safeName name = name)
        ∧ safeName (safeName name) = safeName name :=
  ⟨isFiledBelowMode r root hid, fun _ _ hid' hne _ he _ he' => fileName_ne hid hid' hne he he',
    fun name => ⟨isSafe_safeName name, safeName_of_isSafe, safeName_safeName name⟩⟩

/-- A report whose names try to lead elsewhere. -/
def strayReport : PoisonReport :=
  ⟨.timeout, ⟨"../../etc", "/", "..\\c:x"⟩, [1], .empty, some "late"⟩

theorem filed_safely_stray : IsIdentifier "0123456789abcdef0123456789abcdef"
    ∧ Path.names (strayReport.path "/srv/poison" "0123456789abcdef0123456789abcdef" ++ ".json")
      = ["/", "srv", "poison", "Timeout", ".._.._etc", "_",
        ".._c_x_0123456789abcdef0123456789abcdef.json"] := by
  have hid : IsIdentifier "0123456789abcdef0123456789abcdef" := ⟨by decide, by simp⟩
  refine ⟨hid, ?_⟩
  rw [((filed_safely strayReport "/srv/poison" hid).1.path ".json" (by decide)).1]
  decide

end PoisonReport

end StreamDispatch
