import StreamDispatch.Proofs.FileTree.Making
import StreamDispatch.Proofs.Poison.Filing

set_option autoImplicit false

/-! # Opening a store

A store is opened at a path that leads to a directory, or at one where a directory can be made. From
then on every report can be kept that the limits of the file system allow, as long as no file lies
where its directories would: publishing puts files four names below the root and directories above
them (`IsOpen.publish`), so no report is in the way of another. Opening looks only at whether there
is something at the path, and takes a file for a directory; such a store keeps no report at all. -/

namespace StreamDispatch

open StreamDispatch.Path (IsName IsAcceptable)

/-! ## Paths below a path -/

namespace Path

theorem sublist_join {n : String} (base : String) (hn : IsName n) :
    base.toList.Sublist (join base n).toList := by
  by_cases hbase : base = ""
  · rw [hbase]
    exact List.nil_sublist _
  · unfold join
    rw [if_neg (by simp [head?_of_isName hn, hbase])]
    split <;> simp only [String.toList_append, List.append_assoc, List.sublist_append_left]

theorem exists_toList_join (base n : String) :
    ∃ front, (join base n).toList = front ++ n.toList := by
  unfold join
  split
  · exact ⟨[], rfl⟩
  · split
    · exact ⟨base.toList, String.toList_append⟩
    · exact ⟨(base ++ "/").toList, String.toList_append⟩

/-- Joining names adds no characters but theirs and slashes. -/
theorem mem_foldl_join {ns : List String} {base : String} {c : Char}
    (h : c ∈ (ns.foldl join base).toList) :
    c = '/' ∨ c ∈ base.toList ∨ ∃ n ∈ ns, c ∈ n.toList := by
  induction ns generalizing base with
  | nil => exact .inr (.inl h)
  | cons n ns ih =>
    rcases ih h with hc | hc | ⟨m, hm, hc⟩
    · exact .inl hc
    · have hjoin : c = '/' ∨ c ∈ base.toList ∨ c ∈ n.toList := by
        unfold join at hc
        split at hc
        · exact .inr (.inr hc)
        · split at hc
          · rw [String.toList_append, List.mem_append] at hc
            exact .inr hc
          · rw [String.toList_append, String.toList_append, List.mem_append, List.mem_append] at hc
            rcases hc with (hc | hc) | hc
            · exact .inr (.inl hc)
            · exact .inl (List.mem_singleton.mp hc)
            · exact .inr (.inr hc)
      exact hjoin.imp_right (Or.imp_right fun hc => ⟨n, List.mem_cons_self, hc⟩)
    · exact .inr (.inr ⟨m, List.mem_cons_of_mem _ hm, hc⟩)

/-- A path to which safe names are joined passes the places of the path and then those of the
names. -/
theorem mem_passes_foldl_join {ns : List String} (hns : ∀ n ∈ ns, IsSafe n) {base : String}
    {p : List String} (h : p ∈ passes (ns.foldl join base)) : p ∈ passes base
      ∨ ∃ ms : List String, 1 ≤ ms.length ∧ ms.length ≤ ns.length ∧ p = place base ++ ms := by
  induction ns generalizing base with
  | nil => exact .inl h
  | cons n ns ih =>
    rw [List.forall_mem_cons] at hns
    have hplace := place_join base hns.1.isName hns.1.ne_up
    rcases ih hns.2 h with hp | ⟨ms, -, hlength, rfl⟩
    · rw [passes_of_names (names_join base hns.1.isName), hplace] at hp
      rcases List.mem_append.mp hp with hp | hp
      · exact .inl hp
      · exact .inr ⟨[n], by simp, by simp, List.mem_singleton.mp hp⟩
    · refine .inr ⟨n :: ms, by simp, by simpa using hlength, ?_⟩
      rw [hplace, List.append_assoc, List.singleton_append]

end Path

/-! ## Writing where there are directories -/

namespace FileTree

variable {t : FileTree} {path : String} {p q : List String}

/-- Writing files neither makes nor replaces a directory. -/
theorem directory_writeAll_iff {files : List (String × Payload)} :
    (t.writeAll files).1.get? p = some .directory ↔ t.get? p = some .directory := by
  induction files generalizing t with
  | nil => rfl
  | cons f rest ih =>
    rw [writeAll]
    cases hwrite : t.write f.1 f.2 with
    | error e => rfl
    | ok t₁ =>
      obtain ⟨-, -, hdir, -⟩ := write_eq_ok hwrite
      refine ih.trans ?_
      rw [get?_write hwrite]
      by_cases hp : p = Path.place f.1
      · rw [if_pos hp, hp]
        exact iff_of_false (by simp) hdir
      · rw [if_neg hp]

theorem write_of_locate (content : Payload) (hlocate : t.locate path = .ok q)
    (hname : Path.meansDirectory path = false) (hq : t.get? q ≠ some .directory) :
    t.write path content = .ok (t.put q (.file content)) := by
  unfold write
  rw [hlocate]
  simp only [bind, Except.bind, hname]
  cases he : t.get? q with
  | none => rfl
  | some e =>
    cases e with
    | directory => exact absurd he hq
    | file c => rfl

/-- Files can be written where there are directories on the way and none at their places. -/
theorem writeAll_eq_ok {files : List (String × Payload)}
    (h : ∀ f ∈ files, t.locate f.1 = .ok (Path.place f.1) ∧ Path.meansDirectory f.1 = false
      ∧ t.get? (Path.place f.1) ≠ some .directory) : (t.writeAll files).2 = .ok () := by
  induction files generalizing t with
  | nil => rfl
  | cons f rest ih =>
    rw [List.forall_mem_cons] at h
    obtain ⟨⟨hlocate, hname, hdir⟩, hrest⟩ := h
    have hwrite := write_of_locate f.2 hlocate hname hdir
    rw [writeAll, hwrite]
    refine ih fun g hg => ?_
    obtain ⟨hlocate', hname', hdir'⟩ := hrest g hg
    obtain ⟨hplace, hlimits, hway⟩ := locate_eq_ok_iff.mp hlocate'
    refine ⟨locate_eq_ok_iff.mpr ⟨hplace, hlimits, fun k hk => ?_⟩, hname', ?_⟩
    · have hkept := hway k hk
      rw [get?_write hwrite, if_neg ?_]
      · exact hkept
      · intro heq
        exact hdir (heq ▸ hkept)
    · rw [get?_write hwrite]
      split
      · simp
      · exact hdir'

end FileTree

/-! ## Reports that fit -/

namespace PoisonReport

variable {r : PoisonReport} {root id : String} {t : FileTree}

/-- A report that the limits of the file system allow to be kept. -/
structure Fits (r : PoisonReport) (root id : String) : Prop where
  stream : '\x00' ∉ r.context.stream.toList
  partition : '\x00' ∉ r.context.partition.toList
  offset : '\x00' ∉ r.context.offset.toList
  limits : ∀ f ∈ r.files root id, f.1.utf8ByteSize ≤ Path.maxPath
    ∧ ∀ n ∈ Path.names f.1, n.utf8ByteSize ≤ Path.maxName

theorem zero_notMem_safeName {name : String} (h : '\x00' ∉ name.toList) :
    '\x00' ∉ (safeName name).toList := by
  simp only [safeName]
  split
  · decide
  · rw [String.toList_ofList, List.mem_map]
    rintro ⟨c, hc, heq⟩
    split at heq
    · cases heq
    · exact h (heq ▸ hc)

theorem Fits.acceptable (h : r.Fits root id) (hroot : '\x00' ∉ root.toList)
    (hid : IsIdentifier id) {f : String × Payload} (hf : f ∈ r.files root id) :
    IsAcceptable f.1 where
  zero := by
    obtain ⟨ending, he, hpath⟩ := exists_ending_of_mem_files hf
    rw [hpath, path_eq_join hid]
    intro hzero
    have hending : ∀ e ∈ endings, '\x00' ∉ e.toList := by decide
    have hdigits : '\x00' ∉ id.toList := fun hmem => by
      have hdigit := hid.digits _ hmem
      revert hdigit
      decide
    rcases Path.mem_foldl_join hzero with heq | hmem | ⟨n, hn, hmem⟩
    · cases heq
    · exact hroot hmem
    · simp only [components, directories, List.mem_append, List.mem_cons, List.not_mem_nil,
        or_false] at hn
      rcases hn with (rfl | rfl | rfl) | rfl
      · revert hmem
        cases r.mode <;> decide
      · exact zero_notMem_safeName h.stream hmem
      · exact zero_notMem_safeName h.partition hmem
      · rw [toList_fileName, List.mem_append, List.mem_cons, List.mem_append] at hmem
        rcases hmem with hmem | heq | hmem | hmem
        · exact zero_notMem_safeName h.offset hmem
        · cases heq
        · exact hdigits hmem
        · exact hending ending he hmem
  size := (h.limits f hf).1
  names := (h.limits f hf).2

theorem isSafe_of_mem_directories : ∀ n ∈ r.directories, IsSafe n := by
  simp only [directories, List.forall_mem_cons]
  exact ⟨r.mode.isSafe_name, isSafe_safeName _, isSafe_safeName _, List.forall_mem_nil _⟩

/-- The directory of a report is allowed where its payload file is. -/
theorem Fits.directory (h : r.Fits root id) (hroot : '\x00' ∉ root.toList)
    (hid : IsIdentifier id) : IsAcceptable (r.directory root) := by
  have hpayload : (r.path root id, r.payload) ∈ r.files root id := by simp [files]
  have hname := (isSafe_bareFileName r hid).isName
  have haccepted := h.acceptable hroot hid hpayload
  simp only [path] at haccepted
  have hnames : ∀ n ∈ Path.names (r.directory root),
      n ∈ Path.names (Path.join (r.directory root) (r.fileName id)) := by
    intro n hn
    rw [Path.names_join _ hname]
    exact List.mem_append_left _ hn
  exact haccepted.of_sublist (Path.sublist_join (r.directory root) hname) hnames

/-- The directory of a report ends with the name of a partition, and so in no dot. -/
theorem endsInDot_directory (r : PoisonReport) (root : String) :
    Path.endsInDot (r.directory root) = false := by
  have hname : IsName (safeName r.context.partition) := (isSafe_safeName _).isName
  exact Path.endsInDot_of_isName hname (Path.exists_toList_join _ _)

/-- The path of a file of a report does not look like that of a directory: it ends in a digit, or
in the last letter of an ending. -/
theorem meansDirectory_of_mem_files (hid : IsIdentifier id) {f : String × Payload}
    (hf : f ∈ r.files root id) : Path.meansDirectory f.1 = false := by
  obtain ⟨ending, he, hpath⟩ := exists_ending_of_mem_files hf
  obtain ⟨front, hfront⟩ := Path.exists_toList_join (r.directory root) (r.fileName id ++ ending)
  obtain ⟨c, cs, hcs, hc⟩ : ∃ c cs, f.1.toList.reverse = c :: cs ∧ c ≠ '/' ∧ c ≠ '.' := by
    rw [hpath, path, Path.join_append _ _ (isSafe_bareFileName r hid).ne_empty, hfront,
      List.reverse_append, reverse_fileName]
    obtain ⟨d, ds, hds, hdigit⟩ := hid.reverse_eq
    have hjson : ".json".toList.reverse = ['n', 'o', 's', 'j', '.'] := by decide
    have hexception : "_exception".toList.reverse
        = ['n', 'o', 'i', 't', 'p', 'e', 'c', 'x', 'e', '_'] := by decide
    simp only [endings, List.mem_cons, List.not_mem_nil, or_false] at he
    rcases he with rfl | rfl | rfl
    · rw [hds]
      refine ⟨d, ds ++ _ ++ front.reverse, rfl, ?_, ?_⟩ <;> rintro rfl <;> revert hdigit <;> decide
    · rw [hjson]
      exact ⟨'n', _, rfl, by decide⟩
    · rw [hexception]
      exact ⟨'n', _, rfl, by decide⟩
  unfold Path.meansDirectory
  rw [hcs]
  split <;> simp_all

/-- What keeping a report leaves is what making its directory and writing some files leave. -/
theorem exists_store_fst (r : PoisonReport) (root id : String) (t : FileTree) : ∃ files,
    (r.store root id t).1 = ((t.makeDirectories (r.directory root)).1.writeAll files).1 := by
  unfold store
  cases hmake : t.makeDirectories (r.directory root) with
  | mk t₁ result =>
    cases result with
    | error e => exact ⟨[], rfl⟩
    | ok u => exact ⟨r.files root id, rfl⟩

/-- A directory that is there after a report has been kept, or could not be kept, was there before
or is on the way to the report. -/
theorem directory_of_store {p : List String} (h : (r.store root id t).1.get? p = some .directory) :
    t.get? p = some .directory ∨ p ∈ Path.passes (r.directory root) := by
  obtain ⟨dirs, hdirs, hgains⟩ := FileTree.gains_makeDirectories t (r.directory root)
  obtain ⟨files, hstore⟩ := exists_store_fst r root id t
  rw [hstore, FileTree.directory_writeAll_iff, hgains.get?_eq] at h
  cases he : t.get? p with
  | some e =>
    rw [he, Option.some_or] at h
    exact .inl h
  | none =>
    rw [he, Option.none_or] at h
    split at h
    · next hp => exact .inr (hdirs p hp)
    · cases h

/-- Whatever becomes of a report, a directory stays one. -/
theorem store_directory {p : List String} (h : t.get? p = some .directory) :
    (r.store root id t).1.get? p = some .directory := by
  obtain ⟨dirs, -, hgains⟩ := FileTree.gains_makeDirectories t (r.directory root)
  obtain ⟨files, hstore⟩ := exists_store_fst r root id t
  rw [hstore, FileTree.directory_writeAll_iff]
  exact hgains.extends p _ h

end PoisonReport

/-! ## Stores that are open -/

namespace PoisonStore

open PoisonReport

variable {root id : String} {t t' : FileTree} {r r' : PoisonReport}

/-- No file lies at the places below the root where the directories of reports are, down to the
third name. -/
def IsClear (root : String) (t : FileTree) : Prop :=
  ∀ ns : List String, 1 ≤ ns.length → ns.length ≤ 3 →
    ∀ content, t.get? (Path.place root ++ ns) ≠ some (.file content)

/-- A store takes reports: there are directories on the way to the root and at the root, and no file
is in the way below it. -/
structure IsOpen (root : String) (t : FileTree) : Prop where
  passes : ∀ p ∈ Path.passes root, t.get? p = some .directory
  clear : IsClear root t

theorem IsOpen.isFree (h : IsOpen root t) : t.IsFree (r.directory root) := by
  intro p hp content hfile
  rcases Path.mem_passes_foldl_join isSafe_of_mem_directories hp with hp | ⟨ms, hone, hthree, rfl⟩
  · rw [h.passes p hp] at hfile
    cases hfile
  · exact h.clear ms hone hthree content hfile

/-- The directories of reports do not reach down to where the files are. -/
theorem IsOpen.directory_of_deep (h : IsOpen root t) {ns : List String} (hns : 3 < ns.length)
    (hp : Path.place root ++ ns ∈ Path.passes (r.directory root)) :
    t.get? (Path.place root ++ ns) = some .directory := by
  rcases Path.mem_passes_foldl_join isSafe_of_mem_directories hp with hp | ⟨ms, -, hthree, heq⟩
  · exact h.passes _ hp
  · rw [List.append_cancel_left heq] at hns
    exact absurd hns (Nat.not_lt.mpr hthree)

/-- Whatever becomes of a report, the store takes further ones. -/
theorem IsOpen.store (h : IsOpen root t) (hid : IsIdentifier id) :
    IsOpen root (r.store root id t).1 where
  passes p hp := store_directory (h.passes p hp)
  clear ns hone hthree content hfile := by
    rcases file_of_store hid hfile with hold | ⟨ending, -, heq⟩
    · exact h.clear ns hone hthree content hold
    · have hlength := congrArg List.length (List.append_cancel_left heq)
      have hfour : (r.components id ending).length = 4 := rfl
      omega

/-- The places of the files of a report: four names below the root. -/
theorem exists_place_of_mem_files (hid : IsIdentifier id) {f : String × Payload}
    (hf : f ∈ r.files root id) :
    ∃ ns : List String, 3 < ns.length ∧ Path.place f.1 = Path.place root ++ ns := by
  obtain ⟨ending, he, hpath⟩ := exists_ending_of_mem_files hf
  have hfour : (r.components id ending).length = 4 := rfl
  refine ⟨r.components id ending, by omega, ?_⟩
  rw [hpath, path_eq_join hid, Path.place_foldl_join (isSafe_of_mem_components hid he)]

/-- A report that fits is kept, unless a directory has the name of one of its files. -/
theorem IsOpen.publish (h : IsOpen root t) (hroot : '\x00' ∉ root.toList) (hid : IsIdentifier id)
    (hfits : r.Fits root id)
    (hdirs : ∀ f ∈ r.files root id, t.get? (Path.place f.1) ≠ some .directory) :
    (r.store root id t).2 = .ok () := by
  obtain ⟨t₁, hmake⟩ := FileTree.makeDirectories_eq_ok (hfits.directory hroot hid)
    (endsInDot_directory r root) h.isFree
  have hmade := FileTree.directory_of_makeDirectories hmake
  obtain ⟨dirs, hpasses, hgains⟩ := FileTree.gains_makeDirectories t (r.directory root)
  rw [hmake] at hgains
  have hstore : r.store root id t = t₁.writeAll (r.files root id) := by
    unfold PoisonReport.store
    rw [hmake]
  rw [hstore]
  refine FileTree.writeAll_eq_ok fun f hf => ⟨?_, meansDirectory_of_mem_files hid hf, ?_⟩
  · obtain ⟨ending, he, hpath⟩ := exists_ending_of_mem_files hf
    have hnames : Path.names f.1
        = Path.names (r.directory root) ++ [r.fileName id ++ ending] := by
      rw [hpath, PoisonReport.path, Path.join_append _ _ (isSafe_bareFileName r hid).ne_empty]
      exact Path.names_join _ (isSafe_fileName r hid he).isName
    have hne : f.1 ≠ "" := by
      intro hempty
      rw [hempty] at hnames
      exact absurd (congrArg List.length hnames) (by simp [Path.names])
    refine FileTree.locate_of_directories (hfits.acceptable hroot hid hf) hne fun k hk => ?_
    have hk' : k < (Path.names (r.directory root)).length := by
      simp only [hnames, List.length_append, List.length_singleton] at hk
      omega
    rw [hnames, List.take_append_of_le_length hk']
    exact hmade _ (Path.mem_passes_iff.mpr ⟨k, hk', rfl⟩)
  · intro hdir
    obtain ⟨ns, hns, hplace⟩ := exists_place_of_mem_files hid hf
    rw [hgains.get?_eq] at hdir
    cases he : t.get? (Path.place f.1) with
    | some e =>
      rw [he, Option.some_or] at hdir
      exact hdirs f hf (he.trans hdir)
    | none =>
      rw [he, Option.none_or] at hdir
      split at hdir
      · next hp =>
        have hway := hpasses _ hp
        rw [hplace] at hway he
        rw [h.directory_of_deep hns hway] at he
        cases he
      · cases hdir

/-- However many reports have been published, a report that fits is kept. -/
theorem IsOpen.publish_after (h : IsOpen root t) (hroot : '\x00' ∉ root.toList)
    {reports : List (PoisonReport × String)} (hreports : ∀ x ∈ reports, IsIdentifier x.2)
    (hid : IsIdentifier id) (hfits : r.Fits root id)
    (hdirs : ∀ f ∈ r.files root id, t.get? (Path.place f.1) ≠ some .directory) :
    (r.store root id (publishAll root t reports)).2 = .ok () := by
  induction reports generalizing t with
  | nil => exact h.publish hroot hid hfits hdirs
  | cons x rest ih =>
    rw [List.forall_mem_cons] at hreports
    rw [publishAll_cons, publish_directory]
    refine ih (h.store hreports.1) hreports.2 fun f hf hdir => ?_
    obtain ⟨ns, hns, hplace⟩ := exists_place_of_mem_files hid hf
    rcases directory_of_store hdir with hold | hway
    · exact hdirs f hf hold
    · rw [hplace] at hway
      exact hdirs f hf (hplace ▸ h.directory_of_deep hns hway)

/-- A file at the root stays, and no report can be kept. -/
theorem not_kept_of_file {content : Payload} (hnames : Path.names root ≠ [])
    (hfile : t.get? (Path.place root) = some (.file content))
    {reports : List (PoisonReport × String)} :
    (r.store root id (publishAll root t reports)).2 ≠ .ok () := by
  have hpasses (r : PoisonReport) : Path.place root ∈ Path.passes (r.directory root) := by
    have hnames' : Path.names (r.directory root) = Path.names root ++ r.directories :=
      Path.names_foldl_join isSafe_of_mem_directories root
    have hpos := List.length_pos_iff.mpr hnames
    refine Path.mem_passes_iff.mpr ⟨(Path.names root).length - 1, ?_, ?_⟩
    · rw [hnames', List.length_append]
      omega
    · rw [Nat.sub_add_cancel hpos, hnames', List.take_left]
      rfl
  have hfails (r : PoisonReport) (id : String) (t : FileTree)
      (hfile : t.get? (Path.place root) = some (.file content)) :
      ∃ t₁ e, t.makeDirectories (r.directory root) = (t₁, .error e) := by
    cases hmake : t.makeDirectories (r.directory root) with
    | mk t₁ result =>
      cases result with
      | error e => exact ⟨t₁, e, rfl⟩
      | ok u =>
        have hdir := FileTree.directory_of_makeDirectories hmake _ (hpasses r)
        obtain ⟨dirs, -, hgains⟩ := FileTree.gains_makeDirectories t (r.directory root)
        rw [hmake] at hgains
        rw [hgains.extends _ _ hfile] at hdir
        cases hdir
  induction reports generalizing t with
  | nil =>
    obtain ⟨t₁, e, hmake⟩ := hfails r id t hfile
    have hstore : (r.store root id t).2 = .error ⟨r.directory root, e⟩ := by
      unfold PoisonReport.store
      rw [hmake]
    intro hok
    rw [publishAll, List.foldl_nil, hstore] at hok
    cases hok
  | cons x rest ih =>
    rw [publishAll_cons, publish_directory]
    obtain ⟨t₁, e, hmake⟩ := hfails x.1 x.2 t hfile
    obtain ⟨dirs, -, hgains⟩ := FileTree.gains_makeDirectories t (x.1.directory root)
    rw [hmake] at hgains
    have hstore : (x.1.store root x.2 t).1 = t₁ := by
      unfold PoisonReport.store
      rw [hmake]
    rw [hstore]
    exact ih (hgains.extends _ _ hfile)

/-! ## Opening -/

/-- A path leads to a directory that takes reports; the empty path stands for the working
directory. -/
structure IsReady (root : String) (t t' : FileTree) : Prop where
  directory : t'.get? (Path.place root) = some .directory
  isDirectory : root ≠ "" → t'.isDirectory root = true
  /-- Every report is kept that the limits of the file system allow, however many have been
  published, if no file was in the way when the store was opened. -/
  publishes : IsClear root t → ∀ reports : List (PoisonReport × String),
    (∀ x ∈ reports, IsIdentifier x.2) → ∀ (r : PoisonReport) (id : String), IsIdentifier id →
      r.Fits root id →
      (∀ f ∈ r.files root id, t'.get? (Path.place f.1) ≠ some .directory) →
      ((PoisonStore.directory root).publish r id (publishAll root t' reports)).2 = .ok ()

/-- A path leads to a file: the store keeps no report, whatever is published. -/
structure IsLost (root : String) (t t' : FileTree) : Prop where
  unchanged : t' = t
  publishes : ∀ (reports : List (PoisonReport × String)) (r : PoisonReport) (id : String),
    ((PoisonStore.directory root).publish r id (publishAll root t' reports)).2 ≠ .ok ()

theorem zero_notMem_of_locate {q : List String} (h : t.locate root = .ok q) :
    '\x00' ∉ root.toList := by
  simpa using (FileTree.locate_eq_ok_iff.mp h).2.1.1

/-- What a path leads to when a store has been opened at it. -/
theorem openDirectory_cases {s : PoisonStore} (h : openDirectory root t = (t', .ok s)) :
    s = .directory root ∧ (∃ dirs, t.Gains t' dirs [])
      ∧ (t' = t ∧ t.isFile root = true ∨ root = "" ∨ t'.isDirectory root = true) := by
  unfold openDirectory at h
  split at h
  · next hcontains =>
    cases h
    refine ⟨rfl, ⟨[], .refl t⟩, ?_⟩
    unfold FileTree.contains at hcontains
    cases hstatus : t.status root with
    | error e =>
      rw [hstatus] at hcontains
      cases hcontains
    | ok e =>
      cases e with
      | file content => exact .inl ⟨rfl, by rw [FileTree.isFile, hstatus]⟩
      | directory => exact .inr (.inr (FileTree.isDirectory_iff.mpr hstatus))
  · obtain ⟨dirs, -, hgains⟩ := FileTree.gains_makeDirectories t root
    cases hmake : t.makeDirectories root with
    | mk t₁ result =>
      rw [hmake] at h hgains
      cases result with
      | error e => cases h
      | ok u =>
        cases h
        refine ⟨rfl, ⟨dirs, hgains⟩, .inr ?_⟩
        by_cases hempty : root = ""
        · exact .inl hempty
        · rw [FileTree.makeDirectories, FileTree.chain_eq hempty] at hmake
          obtain ⟨hlocate, hdir⟩ := FileTree.directory_of_makeChain hmake
          exact .inr (FileTree.isDirectory_iff.mpr
            (FileTree.status_eq_directory_iff.mpr ⟨_, hlocate, hdir⟩))

/-- A directory at the path takes reports. -/
theorem isReady_of_isDirectory {dirs : List (List String)} (hgains : t.Gains t' dirs [])
    (hroot : root = "" ∨ t'.isDirectory root = true) : IsReady root t t' := by
  obtain ⟨hzero, hplace, hpasses⟩ : '\x00' ∉ root.toList
      ∧ t'.get? (Path.place root) = some .directory
      ∧ ∀ p ∈ Path.passes root, t'.get? p = some .directory := by
    rcases hroot with rfl | hdir
    · exact ⟨nofun, rfl, nofun⟩
    · obtain ⟨q, hlocate, hq⟩ :=
        FileTree.status_eq_directory_iff.mp (FileTree.isDirectory_iff.mp hdir)
      obtain rfl := (FileTree.locate_eq_ok_iff.mp hlocate).1
      exact ⟨zero_notMem_of_locate hlocate, hq, FileTree.directory_of_passes hlocate hq⟩
  refine ⟨hplace, fun hne => hroot.resolve_left hne, ?_⟩
  intro hclear reports hreports r id hid hfits hfree
  -- Opening has made nothing but directories, so no file is in the way now either.
  have hopen : IsOpen root t' := ⟨hpasses, fun ns hone hthree content hfile =>
    hclear ns hone hthree content (hgains.file_of_file hfile)⟩
  rw [publish_directory]
  exact hopen.publish_after hzero hreports hid hfits hfree

/-- A store that has been opened has changed no file. Unless there is a file at its path, its path
leads to a directory that takes reports; if there is one, it keeps no report at all. -/
theorem opened_store (root : String) (t t' : FileTree) (s : PoisonStore)
    (h : openDirectory root t = (t', .ok s) ∨ ofSettings ⟨true, root⟩ t = (t', .ok s)) :
    s = .directory root ∧ (∃ dirs, t.Gains t' dirs [])
      ∧ (t.isFile root = false → IsReady root t t')
      ∧ (t.isFile root = true → IsLost root t t') := by
  have hopened : openDirectory root t = (t', .ok s) := h.elim id id
  obtain ⟨hs, ⟨dirs, hgains⟩, hcases⟩ := openDirectory_cases hopened
  refine ⟨hs, ⟨dirs, hgains⟩, fun hfile => ?_, fun hfile => ?_⟩
  · refine isReady_of_isDirectory hgains (hcases.resolve_left fun h => ?_)
    rw [hfile] at h
    cases h.2
  · have hstatus : ∃ content, t.status root = .ok (.file content) := by
      unfold FileTree.isFile at hfile
      split at hfile
      · next content hstatus => exact ⟨content, hstatus⟩
      · cases hfile
    obtain ⟨content, hstatus⟩ := hstatus
    obtain ⟨q, hlocate, hq, -⟩ := FileTree.status_eq_file_iff.mp hstatus
    obtain rfl := (FileTree.locate_eq_ok_iff.mp hlocate).1
    have hcontains : t.contains root = true := by rw [FileTree.contains, hstatus]; rfl
    have hsame : t' = t := by
      rw [openDirectory, if_pos hcontains] at hopened
      cases hopened
      rfl
    have hnames : Path.names root ≠ [] := fun hnil => by
      rw [Path.place, hnil] at hq
      cases hq
    refine ⟨hsame, fun reports r id => ?_⟩
    rw [hsame, publish_directory]
    exact not_kept_of_file hnames hq

/-- A tree with one directory. -/
def dataTree : FileTree := ⟨[(["data"], .directory)]⟩

/-- A store that is opened below a directory makes the directory for its reports. -/
theorem opened_store_below_data : ∃ t', openDirectory "data/poison" dataTree
      = (t', .ok (.directory "data/poison"))
    ∧ dataTree.isFile "data/poison" = false ∧ IsReady "data/poison" dataTree t' := by
  have hopened : openDirectory "data/poison" dataTree
      = (⟨[(["data", "poison"], .directory), (["data"], .directory)]⟩,
        .ok (.directory "data/poison")) := by
    rfl
  have hfile : dataTree.isFile "data/poison" = false := by decide +kernel
  exact ⟨_, hopened, hfile, (opened_store _ _ _ _ (.inl hopened)).2.2.1 hfile⟩

/-- A tree with a file where a store should be. -/
def occupiedTree : FileTree := ⟨[(["poison"], .file [120])]⟩

/-- A file is taken for the directory of a store, and the first report is lost, though nothing lies
below the path. -/
theorem file_taken_for_store : openDirectory "poison" occupiedTree
      = (occupiedTree, .ok (.directory "poison"))
    ∧ occupiedTree.isDirectory "poison" = false ∧ IsClear "poison" occupiedTree
    ∧ (sampleReport [1] .none).Fits "poison" "00000000000000000000000000000001"
    ∧ (publish (.directory "poison") (sampleReport [1] .none) "00000000000000000000000000000001"
        occupiedTree).2 = .error ⟨"poison/Error/telemetry/0", .notADirectory⟩ := by
  refine ⟨rfl, by decide +kernel, ?_, ?_, rfl⟩
  · intro ns hone _ content hfile
    cases ns with
    | nil => cases hone
    | cons n rest =>
      have hplace : Path.place "poison" = ["poison"] := by decide +kernel
      rw [hplace] at hfile
      simp [FileTree.get?, FileTree.isGiven, FileTree.find, occupiedTree] at hfile
  · exact ⟨by decide +kernel, by decide +kernel, by decide +kernel, by decide +kernel⟩

end PoisonStore

end StreamDispatch
