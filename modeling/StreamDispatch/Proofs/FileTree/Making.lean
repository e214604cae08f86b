import StreamDispatch.Proofs.FileTree

set_option autoImplicit false

/-! # When directories can be made

A directory is made from the outermost of the missing ones inwards, each by a path of its own that
is spelled with the first names of the given path. Such a path is shorter than the given one
(`Path.sublist_pathOfNames`), so what the limits of the file system allow for the given path they
allow for all of these. What may be in the way is a file, and nothing else, as long as the path does
not end in a dot (`FileTree.makeDirectories_eq_ok`). -/

namespace StreamDispatch

namespace Path

/-! ## Limits -/

/-- A path that the limits of the file system allow. -/
structure IsAcceptable (path : String) : Prop where
  zero : '\x00' ∉ path.toList
  size : path.utf8ByteSize ≤ maxPath
  names : ∀ n ∈ names path, n.utf8ByteSize ≤ maxName

/-- Fewer characters take no more bytes. -/
theorem utf8ByteSize_le_of_sublist {cs ds : List Char} (h : cs.Sublist ds) :
    (String.ofList cs).utf8ByteSize ≤ (String.ofList ds).utf8ByteSize := by
  induction h with
  | slnil => exact Nat.le_refl _
  | cons d _ ih =>
    rw [String.ofList_cons, String.utf8ByteSize_append]
    omega
  | cons_cons d _ ih =>
    rw [String.ofList_cons, String.ofList_cons, String.utf8ByteSize_append,
      String.utf8ByteSize_append]
    omega

/-- What is left of a path after some of its names have been left out is allowed as well. -/
theorem IsAcceptable.of_sublist {path path' : String} (h : IsAcceptable path)
    (hchars : path'.toList.Sublist path.toList)
    (hnames : ∀ n ∈ Path.names path', n ∈ Path.names path) : IsAcceptable path' where
  zero hzero := h.zero (hchars.subset hzero)
  size := by
    have hsize := utf8ByteSize_le_of_sublist hchars
    rw [String.ofList_toList, String.ofList_toList] at hsize
    exact Nat.le_trans hsize h.size
  names n hn := h.names n (hnames n hn)

theorem sublist_intercalate (sep : List Char) {l l' : List (List Char)} (h : l.Sublist l') :
    (sep.intercalate l).Sublist (sep.intercalate l') := by
  induction h with
  | slnil => exact .refl _
  | @cons l l' a h ih =>
    cases l' with
    | nil =>
      rw [List.sublist_nil.mp h]
      exact List.nil_sublist _
    | cons b l' =>
      rw [List.intercalate_cons_cons]
      exact ih.trans (List.sublist_append_right _ _)
  | @cons_cons l l' a h ih =>
    cases l with
    | nil =>
      cases l' with
      | nil => exact .refl _
      | cons b l' =>
        rw [List.intercalate_singleton, List.intercalate_cons_cons, List.append_assoc]
        exact List.sublist_append_left _ _
    | cons c l =>
      cases l' with
      | nil => cases h
      | cons b l' =>
        rw [List.intercalate_cons_cons, List.intercalate_cons_cons]
        exact ih.append_left _

/-- The names in a path are some of the pieces between its slashes. -/
theorem sublist_parts (path : String) :
    ((parts path).map String.toList).Sublist (path.toList.splitOn '/') := by
  have hpieces : ((path.toList.splitOn '/').map String.ofList).map String.toList
      = path.toList.splitOn '/' := by
    rw [List.map_map, Function.comp_def]
    simp only [String.toList_ofList, List.map_id']
  calc ((parts path).map String.toList).Sublist
        (((path.toList.splitOn '/').map String.ofList).map String.toList) :=
      List.filter_sublist.map _
    _ = path.toList.splitOn '/' := hpieces

theorem sublist_intercalate_parts (path : String) (k : Nat) :
    (String.intercalate "/" ((parts path).take k)).toList.Sublist path.toList := by
  have hslash : "/".toList = ['/'] := rfl
  have hparts := ((List.take_sublist k (parts path)).map String.toList).trans (sublist_parts path)
  have hchars := sublist_intercalate ['/'] hparts
  rwa [List.intercalate_splitOn, ← hslash, ← String.toList_intercalate] at hchars

/-- A path that is spelled with the first names of another one has some of its characters. -/
theorem sublist_pathOfNames (path : String) (k : Nat) :
    (FileTree.pathOfNames ((names path).take k)).toList.Sublist path.toList := by
  rw [names_eq]
  split
  · next hhead =>
    cases k with
    | zero => exact List.nil_sublist _
    | succ k =>
      obtain ⟨cs, hcs⟩ := List.head?_eq_some_iff.mp hhead
      have hpath : path = "" ++ "/" ++ String.ofList cs := String.toList_inj.mp (by simp [hcs])
      have hparts : parts path = parts (String.ofList cs) := by
        rw [hpath, parts_append_slash]
        rfl
      have hrest := sublist_intercalate_parts (String.ofList cs) k
      rw [String.toList_ofList] at hrest
      have hfirst : FileTree.pathOfNames (("/" :: parts path).take (k + 1))
          = "/" ++ String.intercalate "/" ((parts path).take k) := rfl
      rw [List.singleton_append, hfirst, hparts, String.toList_append, hcs]
      exact hrest.cons_cons '/'
  · rw [List.nil_append,
      pathOfNames_eq fun n hn => isName_of_mem_parts (List.mem_of_mem_take hn)]
    exact sublist_intercalate_parts path k

/-- So it is allowed where the other one is. -/
theorem IsAcceptable.pathOfNames {path : String} (h : IsAcceptable path) (k : Nat) :
    IsAcceptable (FileTree.pathOfNames ((Path.names path).take k)) := by
  refine h.of_sublist (sublist_pathOfNames path k) fun n hn => ?_
  rw [names_pathOfNames_take] at hn
  exact List.mem_of_mem_take hn

/-! ## The places on the way -/

/-- A path with one more name passes one more place. -/
theorem passes_of_names {path path' : String} {n : String}
    (h : names path = names path' ++ [n]) : passes path = passes path' ++ [place path] := by
  have hlength : (names path).length = (names path').length + 1 := by simp [h]
  rw [passes, hlength, List.range_succ, List.map_append, passes, List.map_singleton,
    ← hlength, List.take_length]
  congr 1
  refine List.map_congr_left fun k hk => ?_
  rw [h, List.take_append_of_le_length (List.mem_range.mp hk)]

end Path

namespace FileTree

open StreamDispatch.Path (IsAcceptable)

variable {t t' : FileTree} {path : String} {p q : List String} {ns : List String}

/-- No file is in the way of a path. -/
def IsFree (t : FileTree) (path : String) : Prop :=
  ∀ p ∈ Path.passes path, ∀ content, t.get? p ≠ some (.file content)

theorem locate_of_directories (h : IsAcceptable path) (hne : path ≠ "")
    (hway : ∀ k, k + 1 < (Path.names path).length →
      t.get? (((Path.names path).take (k + 1)).foldl enter []) = some .directory) :
    t.locate path = .ok (Path.place path) :=
  locate_eq_ok_iff.mpr ⟨rfl, ⟨by simpa using h.zero, h.size, hne, h.names⟩, hway⟩

/-- Where no file is in the way, a walk fails only for what is missing. -/
theorem walk_of_free (hshort : ∀ n ∈ ns, n.utf8ByteSize ≤ Path.maxName)
    (hfree : ∀ k, k + 1 < ns.length →
      ∀ content, t.get? ((ns.take (k + 1)).foldl enter p) ≠ some (.file content)) :
    (∃ q, t.walk p ns = .ok q) ∨ t.walk p ns = .error .notFound := by
  induction ns generalizing p with
  | nil => exact .inl ⟨p, rfl⟩
  | cons name rest ih =>
    rw [List.forall_mem_cons] at hshort
    rw [walk, if_neg (Nat.not_lt.mpr hshort.1)]
    cases rest with
    | nil => exact .inl ⟨_, rfl⟩
    | cons m rest =>
      simp only [List.isEmpty_cons, Bool.false_eq_true, if_false]
      have hnext := hfree 0 (by simp)
      rw [List.take_succ_cons, List.take_zero, List.foldl_cons, List.foldl_nil] at hnext
      split
      · exact .inr rfl
      · next content hfile => exact absurd hfile (hnext content)
      · exact ih hshort.2 fun k hk => hfree (k + 1) (Nat.succ_lt_succ hk)

theorem locate_of_free (h : IsAcceptable path) (hne : path ≠ "") (hfree : t.IsFree path) :
    t.locate path = .ok (Path.place path) ∨ t.locate path = .error .notFound := by
  have hlocate : t.locate path = t.walk [] (Path.names path) := by
    rw [locate, if_neg (by simpa using h.zero), if_neg (Nat.not_lt.mpr h.size),
      if_neg (by simpa using hne)]
  have hway : ∀ k, k + 1 < (Path.names path).length → ∀ content,
      t.get? (((Path.names path).take (k + 1)).foldl enter []) ≠ some (.file content) :=
    fun k hk => hfree _ (Path.mem_passes_iff.mpr ⟨k, Nat.lt_of_succ_lt hk, rfl⟩)
  rcases walk_of_free h.names hway with ⟨q, hwalk⟩ | hwalk
  · rw [← hlocate] at hwalk
    exact .inl ((locate_eq_ok_iff.mp hwalk).1 ▸ hwalk)
  · exact .inr (hlocate.trans hwalk)

/-! ## Making directories -/

/-- Where a path leads to no file there is a directory, or one can be made, unless the path ends in
a dot. -/
theorem ensureDirectory_of_locate (hdot : Path.endsInDot path = false)
    (hlocate : t.locate path = .ok q) (hq : ∀ content, t.get? q ≠ some (.file content)) :
    ∃ t', t.ensureDirectory path = .ok t' := by
  unfold ensureDirectory makeDirectory
  rw [hlocate, hdot]
  simp only [bind, Except.bind]
  cases he : t.get? q with
  | none => exact ⟨_, rfl⟩
  | some e =>
    cases e with
    | file content => exact absurd he (hq content)
    | directory =>
      have hdir := isDirectory_iff.mpr (status_eq_directory_iff.mpr ⟨q, hlocate, he⟩)
      exact ⟨t, if_pos hdir⟩

theorem ensureDirectory_of_error {e : FileError} (hlocate : t.locate path = .error e) :
    t.ensureDirectory path = .error e := by
  have hdir : t.isDirectory path = false := Bool.eq_false_iff.mpr fun h => by
    obtain ⟨q, hq, -⟩ := status_eq_directory_iff.mp (isDirectory_iff.mp h)
    rw [hlocate] at hq
    cases hq
  unfold ensureDirectory makeDirectory
  rw [hlocate]
  exact if_neg (by rw [hdir]; decide)

/-- Where only directories have been added, every file was there before. -/
theorem Gains.file_of_file {dirs : List (List String)} {content : Payload}
    (h : t.Gains t' dirs []) (hfile : t'.get? p = some (.file content)) :
    t.get? p = some (.file content) := by
  rw [h.get?_eq] at hfile
  cases he : t.get? p with
  | some e => rwa [he, Option.some_or] at hfile
  | none =>
    rw [he, Option.none_or] at hfile
    split at hfile <;> cases hfile

theorem Gains.isFree {dirs : List (List String)} (h : t.Gains t' dirs []) (hfree : t.IsFree path) :
    t'.IsFree path :=
  fun p hp content hfile => hfree p hp content (h.file_of_file hfile)

/-- The directory of a path can be made once the one that it lies in can. -/
theorem makeChain_cons {path' : String} {parents : List String} {n : String}
    (h : IsAcceptable path) (hdot : Path.endsInDot path = false) (hne : path ≠ "")
    (hnames : Path.names path = Path.names path' ++ [n]) (hfree : t.IsFree path)
    (hparents : ∃ t', t.makeChain (path' :: parents) = (t', .ok ())) :
    ∃ t', t.makeChain (path :: path' :: parents) = (t', .ok ()) := by
  have hplace : Path.place path ∈ Path.passes path := by
    rw [Path.passes_of_names hnames]
    exact List.mem_append_right _ List.mem_cons_self
  rcases locate_of_free h hne hfree with hlocate | hlocate
  · obtain ⟨t', ht'⟩ := ensureDirectory_of_locate hdot hlocate (hfree _ hplace)
    exact ⟨t', by rw [makeChain, ht']⟩
  · obtain ⟨t₁, hchain⟩ := hparents
    obtain ⟨hlocated, hdir⟩ := directory_of_makeChain hchain
    have hmade := directory_of_passes hlocated hdir
    have hgained : ∃ dirs, t.Gains t₁ dirs [] := by
      obtain ⟨dirs, -, hgains⟩ := gains_makeChain t (path' :: parents)
      exact ⟨dirs, by rwa [hchain] at hgains⟩
    obtain ⟨dirs, hgains⟩ := hgained
    have hway : ∀ k, k + 1 < (Path.names path).length →
        t₁.get? (((Path.names path).take (k + 1)).foldl enter []) = some .directory := by
      intro k hk
      have hk' : k < (Path.names path').length := by
        simp only [hnames, List.length_append, List.length_singleton] at hk
        omega
      rw [hnames, List.take_append_of_le_length hk']
      exact hmade _ (Path.mem_passes_iff.mpr ⟨k, hk', rfl⟩)
    obtain ⟨t', ht'⟩ := ensureDirectory_of_locate hdot (locate_of_directories h hne hway)
      ((hgains.isFree hfree) _ hplace)
    refine ⟨t', ?_⟩
    rw [makeChain, ensureDirectory_of_error hlocate]
    simp only [hchain, ht']

theorem makeChain_single (h : IsAcceptable path) (hdot : Path.endsInDot path = false)
    (hne : path ≠ "") (hnames : (Path.names path).length ≤ 1) (hfree : t.IsFree path) :
    ∃ t', t.makeChain [path] = (t', .ok ()) := by
  have hlocate : t.locate path = .ok (Path.place path) :=
    locate_of_directories h hne fun k hk => by omega
  have hplace : ∀ content, t.get? (Path.place path) ≠ some (.file content) := by
    cases hlist : Path.names path with
    | nil =>
      have hroot : Path.place path = [] := by rw [Path.place, hlist]; rfl
      rw [hroot]
      intro content h
      cases h
    | cons n rest =>
      refine hfree _ (Path.mem_passes_iff.mpr ⟨0, by simp [hlist], ?_⟩)
      rw [Path.place, List.take_of_length_le hnames]
  obtain ⟨t', ht'⟩ := ensureDirectory_of_locate hdot hlocate hplace
  exact ⟨t', by rw [makeChain, ht']⟩

/-- The paths that are spelled with the first names of a path, the longest first. -/
def ladder (ns : List String) (k : Nat) : List String :=
  (List.range k).reverse.map fun n => pathOfNames (ns.take (n + 1))

theorem ladder_succ (ns : List String) (k : Nat) :
    ladder ns (k + 1) = pathOfNames (ns.take (k + 1)) :: ladder ns k := by
  simp [ladder, List.range_succ]

theorem IsFree.pathOfNames (hfree : t.IsFree path) (k : Nat) :
    t.IsFree (pathOfNames ((Path.names path).take k)) := by
  intro p hp
  obtain ⟨j, hj, rfl⟩ := Path.mem_passes_iff.mp hp
  rw [Path.names_pathOfNames_take, List.length_take] at hj
  refine hfree _ (Path.mem_passes_iff.mpr ⟨j, by omega, ?_⟩)
  rw [Path.names_pathOfNames_take, List.take_take, Nat.min_eq_left (by omega)]

theorem pathOfNames_take_ne_empty {k : Nat} (hk : k < (Path.names path).length) :
    pathOfNames ((Path.names path).take (k + 1)) ≠ "" := by
  intro hempty
  have hnames := Path.names_pathOfNames_take path (k + 1)
  rw [hempty] at hnames
  have hlength := congrArg List.length hnames
  rw [List.length_take, Nat.min_eq_left hk] at hlength
  cases hlength

/-- One directory after the other is made along a path. -/
theorem makeChain_ladder (h : IsAcceptable path) (hfree : t.IsFree path) {k : Nat}
    (hk : k < (Path.names path).length) :
    ∃ t', t.makeChain (ladder (Path.names path) (k + 1)) = (t', .ok ()) := by
  induction k with
  | zero =>
    rw [ladder_succ]
    refine makeChain_single (h.pathOfNames 1) (Path.endsInDot_pathOfNames_take path 1)
      (pathOfNames_take_ne_empty hk) ?_ (hfree.pathOfNames 1)
    rw [Path.names_pathOfNames_take, List.length_take]
    exact Nat.min_le_left _ _
  | succ k ih =>
    have hbefore := ih (Nat.lt_of_succ_lt hk)
    rw [ladder_succ] at hbefore
    rw [ladder_succ, ladder_succ]
    refine makeChain_cons (n := (Path.names path)[k + 1]) (h.pathOfNames _)
      (Path.endsInDot_pathOfNames_take path _) (pathOfNames_take_ne_empty hk) ?_
      (hfree.pathOfNames _) hbefore
    rw [Path.names_pathOfNames_take, Path.names_pathOfNames_take, List.take_succ_eq_append_getElem]

theorem chain_eq (hne : path ≠ "") :
    chain path = path :: ladder (Path.names path) ((Path.names path).length - 1) :=
  if_neg (by simpa using hne)

/-- A directory can be made wherever the limits of the file system allow its path and no file is in
the way, if the path does not end in a dot. -/
theorem makeDirectories_eq_ok (h : IsAcceptable path) (hdot : Path.endsInDot path = false)
    (hfree : t.IsFree path) : ∃ t', t.makeDirectories path = (t', .ok ()) := by
  unfold makeDirectories
  by_cases hne : path = ""
  · rw [hne]
    exact ⟨t, rfl⟩
  rw [chain_eq hne]
  cases hlength : (Path.names path).length - 1 with
  | zero => exact makeChain_single h hdot hne (by omega) hfree
  | succ k =>
    have hladder := makeChain_ladder h hfree (k := k) (by omega)
    have hk : k + 1 < (Path.names path).length := by omega
    have hnames : Path.names path = Path.names (pathOfNames ((Path.names path).take (k + 1)))
        ++ [(Path.names path)[k + 1]] := by
      rw [Path.names_pathOfNames_take, ← List.take_succ_eq_append_getElem, List.take_of_length_le]
      omega
    rw [ladder_succ] at hladder ⊢
    exact makeChain_cons h hdot hne hnames hfree hladder

end FileTree

end StreamDispatch
