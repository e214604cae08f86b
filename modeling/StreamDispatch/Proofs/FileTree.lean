import StreamDispatch.FileTree
import StreamDispatch.Proofs.Decode.Record

set_option autoImplicit false

/-! # What is done to a file tree

A path that is walked leads to the place of its names (`Path.place`), whatever lies on the way; what
lies there only decides whether the walk succeeds. So what is done with paths can be told by places.
Making directories and writing a file add something where there was nothing, and nothing else
changes: `FileTree.Gains` lists the directories and the files by which one tree differs from
another. -/

namespace StreamDispatch

namespace Path

/-! ## The names of a path -/

/-- Something that a path can name in a directory, or the way up from it. -/
structure IsName (n : String) : Prop where
  slash : '/' ∉ n.toList
  ne_empty : n ≠ ""
  ne_dot : n ≠ "."

/-- The names in a path without the slash in front. -/
def parts (path : String) : List String :=
  ((path.toList.splitOn '/').map String.ofList).filter fun n => n ≠ "" && n ≠ "."

theorem names_eq (path : String) :
    names path = (if path.toList.head? = some '/' then ["/"] else []) ++ parts path := by
  unfold names parts
  split <;> rfl

theorem notMem_of_mem_splitOn {cs l : List Char} {c : Char} (h : l ∈ cs.splitOn c) : c ∉ l := by
  induction cs generalizing l with
  | nil => simp_all
  | cons x cs ih =>
    rw [List.splitOn_cons_eq_if_modifyHead] at h
    split at h
    · rcases List.mem_cons.mp h with rfl | h
      · exact List.not_mem_nil
      · exact ih h
    · next hx =>
      cases hcs : cs.splitOn c with
      | nil => exact absurd hcs (List.splitOn_ne_nil c cs)
      | cons first rest =>
        rw [hcs, List.modifyHead_cons] at h
        rcases List.mem_cons.mp h with rfl | h
        · have hfirst := ih (hcs ▸ List.mem_cons_self)
          simpa [hfirst] using fun heq => hx (by simp [heq])
        · exact ih (hcs ▸ List.mem_cons_of_mem _ h)

theorem isName_of_mem_parts {path n : String} (hn : n ∈ parts path) : IsName n := by
  simp only [parts, List.mem_filter, List.mem_map, Bool.and_eq_true, decide_eq_true_eq] at hn
  obtain ⟨⟨l, hl, rfl⟩, hne, hdot⟩ := hn
  exact ⟨by simpa using notMem_of_mem_splitOn hl, hne, hdot⟩

theorem parts_of_isName {n : String} (hn : IsName n) : parts n = [n] := by
  simp [parts, List.splitOn_eq_singleton hn.slash, hn.ne_empty, hn.ne_dot]

/-- A slash separates names. -/
theorem parts_append_slash (a b : String) : parts (a ++ "/" ++ b) = parts a ++ parts b := by
  simp [parts, List.splitOn_append_cons_self]

theorem parts_intercalate {ns : List String} (hns : ∀ n ∈ ns, IsName n) :
    parts (String.intercalate "/" ns) = ns := by
  induction ns with
  | nil => rfl
  | cons n ns ih =>
    rw [List.forall_mem_cons] at hns
    cases ns with
    | nil => exact parts_of_isName hns.1
    | cons m ns =>
      rw [String.intercalate_cons_cons, parts_append_slash, ih hns.2, parts_of_isName hns.1]
      rfl

theorem head?_of_isName {n : String} (hn : IsName n) : n.toList.head? ≠ some '/' := fun h =>
  hn.slash (List.mem_of_mem_head? h)

theorem names_of_isName {n : String} (hn : IsName n) : names n = [n] := by
  rw [names_eq, if_neg (head?_of_isName hn), parts_of_isName hn, List.nil_append]

/-- Whether a path begins at the root is told by how it begins. -/
theorem names_append {base rest : String} (hbase : base ≠ "") {ns : List String}
    (hparts : parts (base ++ rest) = parts base ++ ns) :
    names (base ++ rest) = names base ++ ns := by
  have hhead : (base ++ rest).toList.head? = base.toList.head? := by
    obtain ⟨c, cs, hcs⟩ := List.exists_cons_of_ne_nil (mt String.toList_eq_nil_iff.mp hbase)
    rw [String.toList_append, hcs]
    rfl
  rw [names_eq, names_eq, hhead, hparts, List.append_assoc]

/-- A name below a path is the last of its names. -/
theorem names_join {n : String} (base : String) (hn : IsName n) :
    names (join base n) = names base ++ [n] := by
  have hslash (b : String) : parts (b ++ "/" ++ n) = parts b ++ [n] := by
    rw [parts_append_slash, parts_of_isName hn]
  by_cases hbase : base = ""
  · have hjoin : join base n = n := by simp [join, hbase]
    rw [hjoin, names_of_isName hn, hbase]
    rfl
  · by_cases hlast : base.toList.getLast? = some '/'
    · have hjoin : join base n = base ++ n := by
        simp [join, head?_of_isName hn, hbase, hlast]
      obtain ⟨cs, hcs⟩ := List.getLast?_eq_some_iff.mp hlast
      have hsplit : base = String.ofList cs ++ "/" := String.toList_inj.mp (by simp [hcs])
      have hbare : parts base = parts (String.ofList cs) := by
        have hempty := parts_append_slash (String.ofList cs) ""
        rw [String.append_empty, ← hsplit] at hempty
        exact hempty.trans (List.append_nil _)
      rw [hjoin]
      refine names_append hbase ?_
      rw [hbare, ← hslash, ← hsplit]
    · have hjoin : join base n = base ++ ("/" ++ n) := by
        simp [join, head?_of_isName hn, hbase, hlast, String.append_assoc]
      rw [hjoin]
      refine names_append hbase ?_
      rw [← String.append_assoc, hslash]

/-- What is added to a path is added to its last name. -/
theorem join_append {n : String} (base ending : String) (hn : n ≠ "") :
    join base n ++ ending = join base (n ++ ending) := by
  obtain ⟨c, cs, hcs⟩ := List.exists_cons_of_ne_nil (mt String.toList_eq_nil_iff.mp hn)
  simp only [join, String.toList_append, hcs, List.cons_append, List.head?_cons]
  split
  · rfl
  · split <;> simp only [String.append_assoc]

/-! ## The places that a path passes -/

/-- The place that a path leads to. -/
def place (path : String) : List String := (names path).foldl FileTree.enter []

/-- The places that a path passes, up to the one that it leads to. -/
def passes (path : String) : List (List String) :=
  (List.range (names path).length).map fun n =>
    ((names path).take (n + 1)).foldl FileTree.enter []

theorem mem_passes_iff {path : String} {q : List String} : q ∈ passes path ↔
    ∃ n < (names path).length, q = ((names path).take (n + 1)).foldl FileTree.enter [] := by
  simp [passes, eq_comm]

/-- What lies below a path has its place below that of the path. -/
theorem place_join {n : String} (base : String) (hn : IsName n) (hup : n ≠ "..") :
    place (join base n) = place base ++ [n] := by
  simp [place, names_join base hn, FileTree.enter, hup]

/-- Names are joined by slashes, with none in front. -/
theorem pathOfNames_eq {ns : List String} (hns : ∀ n ∈ ns, IsName n) :
    FileTree.pathOfNames ns = String.intercalate "/" ns := by
  unfold FileTree.pathOfNames
  split
  · exact absurd (hns "/" List.mem_cons_self).slash (by decide)
  · rfl

theorem names_pathOfNames {ns : List String} (hns : ∀ n ∈ ns, IsName n) :
    names (FileTree.pathOfNames ns) = ns
      ∧ names (FileTree.pathOfNames ("/" :: ns)) = "/" :: ns := by
  constructor
  · cases ns with
    | nil => rfl
    | cons n rest =>
      have hn : IsName n := hns n List.mem_cons_self
      rw [pathOfNames_eq hns]
      cases rest with
      | nil => exact names_of_isName hn
      | cons m rest =>
        rw [String.intercalate_cons_cons, String.append_assoc]
        have hparts : parts (n ++ ("/" ++ String.intercalate "/" (m :: rest)))
            = parts n ++ m :: rest := by
          rw [← String.append_assoc, parts_append_slash,
            parts_intercalate (List.forall_mem_cons.mp hns).2]
        rw [names_append hn.ne_empty hparts, names_of_isName hn, List.singleton_append]
  · have hparts := parts_append_slash "" (String.intercalate "/" ns)
    rw [parts_intercalate hns, String.empty_append] at hparts
    have hpath : FileTree.pathOfNames ("/" :: ns) = "/" ++ String.intercalate "/" ns := rfl
    rw [hpath, names_eq, hparts, if_pos (by simp)]
    rfl

/-- A path that is made of the first names of another one has these very names. -/
theorem names_pathOfNames_take (path : String) (k : Nat) :
    names (FileTree.pathOfNames ((names path).take k)) = (names path).take k := by
  have hns (j : Nat) (n : String) (hn : n ∈ (parts path).take j) : IsName n :=
    isName_of_mem_parts (List.mem_of_mem_take hn)
  rw [names_eq path]
  split
  · cases k with
    | zero => rfl
    | succ k => exact (names_pathOfNames (hns k)).2
  · exact (names_pathOfNames (hns k)).1

/-! ## Paths that end in a dot -/

/-- No path that ends with a name ends in a dot. -/
theorem endsInDot_of_isName {path n : String} (hn : IsName n)
    (h : ∃ front, path.toList = front ++ n.toList) : endsInDot path = false := by
  obtain ⟨front, h⟩ := h
  have hne : n.toList.reverse ≠ [] := by simpa using hn.ne_empty
  obtain ⟨c, cs, hcs⟩ := List.exists_cons_of_ne_nil hne
  have hslash : ∀ d ∈ c :: cs, d ≠ '/' := by
    rintro d hd rfl
    exact hn.slash (List.mem_reverse.mp (hcs ▸ hd))
  rw [List.forall_mem_cons] at hslash
  unfold endsInDot
  rw [h, List.reverse_append, hcs, List.cons_append,
    List.dropWhile_cons_of_neg (by simpa using hslash.1)]
  cases cs with
  | nil =>
    -- A single character would have to be the dot itself.
    have hdot : c ≠ '.' := by
      rintro rfl
      have hlist : n.toList = ['.'] := by rw [← List.reverse_reverse n.toList, hcs]; rfl
      exact hn.ne_dot (String.toList_inj.mp hlist)
    split <;> simp_all
  | cons d ds =>
    rw [List.forall_mem_cons] at hslash
    split <;> simp_all

theorem exists_toList_intercalate {ns : List String} (hns : ns ≠ []) :
    ∃ front, ∃ n ∈ ns, (String.intercalate "/" ns).toList = front ++ n.toList := by
  induction ns with
  | nil => exact absurd rfl hns
  | cons n ns ih =>
    cases ns with
    | nil => exact ⟨[], n, List.mem_cons_self, rfl⟩
    | cons m rest =>
      obtain ⟨front, l, hl, hlist⟩ := ih (List.cons_ne_nil _ _)
      refine ⟨(n ++ "/").toList ++ front, l, List.mem_cons_of_mem _ hl, ?_⟩
      rw [String.intercalate_cons_cons, String.toList_append, hlist, List.append_assoc]

/-- A path that is spelled with names does not end in a dot. -/
theorem endsInDot_pathOfNames_take (path : String) (k : Nat) :
    endsInDot (FileTree.pathOfNames ((names path).take k)) = false := by
  have hns (j : Nat) (n : String) (hn : n ∈ (parts path).take j) : IsName n :=
    isName_of_mem_parts (List.mem_of_mem_take hn)
  have hspelled (front : String) (hfront : endsInDot front = false) (j : Nat) :
      endsInDot (front ++ String.intercalate "/" ((parts path).take j)) = false := by
    by_cases hempty : (parts path).take j = []
    · rw [hempty, String.intercalate_nil, String.append_empty]
      exact hfront
    · obtain ⟨chars, n, hn, hlist⟩ := exists_toList_intercalate hempty
      refine endsInDot_of_isName (hns j n hn) ⟨front.toList ++ chars, ?_⟩
      rw [String.toList_append, hlist, List.append_assoc]
  rw [names_eq]
  split
  · cases k with
    | zero => rfl
    | succ k => exact hspelled "/" rfl k
  · have hplain := hspelled "" rfl k
    rw [String.empty_append] at hplain
    rw [List.nil_append, pathOfNames_eq (hns k)]
    exact hplain

end Path

namespace FileTree

variable {t t' t'' : FileTree} {path : String} {p q : List String} {ns : List String}
  {content : Payload} {dirs dirs' : List (List String)}
  {files files' : List (List String × Payload)}

/-! ## Walking -/

/-- A walk succeeds if no name is too long and there are directories on the way; what the last name
leads to does not matter. -/
theorem walk_eq_ok_iff : t.walk p ns = .ok q ↔ q = ns.foldl enter p
    ∧ (∀ n ∈ ns, n.utf8ByteSize ≤ Path.maxName)
    ∧ ∀ k, k + 1 < ns.length → t.get? ((ns.take (k + 1)).foldl enter p) = some .directory := by
  induction ns generalizing p with
  | nil => simp [walk, eq_comm]
  | cons name rest ih =>
    by_cases hlong : Path.maxName < name.utf8ByteSize
    · rw [walk, if_pos hlong]
      exact iff_of_false nofun fun h => Nat.not_le.mpr hlong (h.2.1 name List.mem_cons_self)
    · rw [walk, if_neg hlong]
      have hshort := Nat.le_of_not_lt hlong
      -- The last name is not looked up: what it leads to need not exist.
      cases rest with
      | nil => simp [eq_comm, hshort]
      | cons m rest =>
        rw [List.forall_mem_cons, and_iff_right hshort, List.foldl_cons]
        simp only [List.isEmpty_cons, Bool.false_eq_true, if_false]
        cases hnext : t.get? (enter p name) with
        | none =>
          refine iff_of_false nofun fun h => ?_
          have hfirst := h.2.2 0 (by simp)
          simp [hnext] at hfirst
        | some e =>
          cases e with
          | file content =>
            refine iff_of_false nofun fun h => ?_
            have hfirst := h.2.2 0 (by simp)
            simp [hnext] at hfirst
          | directory =>
            refine ih.trans (and_congr_right fun _ => and_congr_right fun _ => ?_)
            constructor
            · intro h k hk
              cases k with
              | zero => exact hnext
              | succ k => exact h k (Nat.lt_of_succ_lt_succ hk)
            · exact fun h k hk => h (k + 1) (Nat.succ_lt_succ hk)

theorem locate_eq_ok_iff : t.locate path = .ok q ↔ q = Path.place path
    ∧ (path.toList.contains '\x00' = false ∧ path.utf8ByteSize ≤ Path.maxPath ∧ path ≠ ""
      ∧ ∀ n ∈ Path.names path, n.utf8ByteSize ≤ Path.maxName)
    ∧ ∀ k, k + 1 < (Path.names path).length →
      t.get? (((Path.names path).take (k + 1)).foldl enter []) = some .directory := by
  unfold locate
  split
  · simp_all
  · split
    · next hlong => exact iff_of_false nofun fun h => Nat.not_le.mpr hlong h.2.1.2.1
    · split
      · simp_all
      · rw [walk_eq_ok_iff]
        simp_all [Path.place]

/-- On the way to a directory there are only directories. -/
theorem directory_of_passes (h : t.locate path = .ok q) (hq : t.get? q = some .directory) :
    ∀ p ∈ Path.passes path, t.get? p = some .directory := by
  obtain ⟨rfl, -, hway⟩ := locate_eq_ok_iff.mp h
  intro p hp
  obtain ⟨k, hk, rfl⟩ := Path.mem_passes_iff.mp hp
  rcases Nat.lt_or_eq_of_le (Nat.succ_le_of_lt hk) with hlt | heq
  · exact hway k hlt
  · rw [← Nat.succ_eq_add_one, heq, List.take_length]
    exact hq

theorem status_eq_directory_iff : t.status path = .ok .directory ↔
    ∃ q, t.locate path = .ok q ∧ t.get? q = some .directory := by
  rw [status, Decode.bind_eq_ok_iff]
  refine exists_congr fun q => and_congr_right fun _ => ?_
  split <;> simp_all [pure, Except.pure]
  split <;> simp

theorem status_eq_file_iff : t.status path = .ok (.file content) ↔
    ∃ q, t.locate path = .ok q ∧ t.get? q = some (.file content)
      ∧ Path.meansDirectory path = false := by
  rw [status, Decode.bind_eq_ok_iff]
  refine exists_congr fun q => and_congr_right fun _ => ?_
  split <;> simp_all [pure, Except.pure]
  split <;> simp_all

theorem isDirectory_iff : t.isDirectory path = true ↔ t.status path = .ok .directory := by
  unfold isDirectory
  split <;> simp_all

/-- What is read is the content of the file at the place of the path. -/
theorem read_eq_ok_iff : t.read path = .ok content ↔
    ∃ q, t.locate path = .ok q ∧ t.get? q = some (.file content)
      ∧ Path.meansDirectory path = false := by
  rw [← status_eq_file_iff, read, Decode.bind_eq_ok_iff]
  constructor
  · rintro ⟨e, he, h⟩
    cases e with
    | directory => cases h
    | file c =>
      cases h
      exact he
  · exact fun h => ⟨_, h, rfl⟩

theorem isFile_iff : t.isFile path = true ↔ ∃ content, t.read path = .ok content := by
  simp only [read_eq_ok_iff, ← status_eq_file_iff]
  unfold isFile
  split <;> simp_all

/-! ## What is added to a tree -/

/-- What lies in one tree lies in the other one as well. -/
def Extends (t t' : FileTree) : Prop := ∀ p e, t.get? p = some e → t'.get? p = some e

theorem Extends.refl (t : FileTree) : t.Extends t := fun _ _ h => h

theorem Extends.trans (h : t.Extends t') (h' : t'.Extends t'') : t.Extends t'' :=
  fun p e he => h' p e (h p e he)

theorem Extends.locate (h : t.Extends t') (hl : t.locate path = .ok q) :
    t'.locate path = .ok q := by
  rw [locate_eq_ok_iff] at hl ⊢
  exact ⟨hl.1, hl.2.1, fun k hk => h _ _ (hl.2.2 k hk)⟩

/-- What can be read stays as it is. -/
theorem Extends.read (h : t.Extends t') (hr : t.read path = .ok content) :
    t'.read path = .ok content := by
  obtain ⟨q, hl, hq, hm⟩ := read_eq_ok_iff.mp hr
  exact read_eq_ok_iff.mpr ⟨q, h.locate hl, h _ _ hq, hm⟩

/-- A tree differs from another one by these directories and files, which lie where there was
nothing before. -/
structure Gains (t t' : FileTree) (dirs : List (List String))
    (files : List (List String × Payload)) : Prop where
  made : ∀ q ∈ dirs, t.get? q = none
  written : ∀ f ∈ files, t.get? f.1 = none ∧ f.1 ∉ dirs
  once : (files.map Prod.fst).Nodup
  get?_eq : ∀ p, t'.get? p = (t.get? p).or
    ((if p ∈ dirs then some .directory else none).or ((files.lookup p).map .file))

theorem Gains.refl (t : FileTree) : t.Gains t [] [] :=
  ⟨nofun, nofun, .nil, fun p => by simp⟩

theorem Gains.extends (h : t.Gains t' dirs files) : t.Extends t' := fun p e he => by
  rw [h.get?_eq, he, Option.some_or]

/-- Where there is nothing afterwards, nothing was before or has been added. -/
theorem Gains.of_get?_eq_none (h : t.Gains t' dirs files) (hp : t'.get? p = none) :
    t.get? p = none ∧ p ∉ dirs ∧ files.lookup p = none := by
  rw [h.get?_eq, Option.or_eq_none_iff, Option.or_eq_none_iff] at hp
  exact ⟨hp.1, by simpa using hp.2.1, Option.map_eq_none_iff.mp hp.2.2⟩

theorem Gains.get?_of_mem (h : t.Gains t' dirs files) {f : List String × Payload} (hf : f ∈ files) :
    t'.get? f.1 = some (.file f.2) := by
  have hlookup : files.lookup f.1 = some f.2 := by
    obtain ⟨before, after, rfl⟩ := List.append_of_mem hf
    refine List.lookup_eq_some_iff.mpr ⟨before, after, rfl, fun g hg => ?_⟩
    have honce := h.once
    rw [List.map_append, List.nodup_append] at honce
    exact bne_iff_ne.mpr
      (honce.2.2 g.1 (List.mem_map_of_mem hg) f.1 List.mem_cons_self).symm
  rw [h.get?_eq, (h.written f hf).1, if_neg (h.written f hf).2, hlookup]
  rfl

theorem Gains.trans (h : t.Gains t' dirs files) (h' : t'.Gains t'' dirs' files') :
    t.Gains t'' (dirs ++ dirs') (files ++ files') where
  made q hq := by
    rcases List.mem_append.mp hq with hq | hq
    · exact h.made q hq
    · exact (h.of_get?_eq_none (h'.made q hq)).1
  written f hf := by
    rw [List.mem_append, not_or]
    rcases List.mem_append.mp hf with hf | hf
    · refine ⟨(h.written f hf).1, (h.written f hf).2, fun hmade => ?_⟩
      have hnone := h'.made _ hmade
      rw [h.get?_of_mem hf] at hnone
      cases hnone
    · obtain ⟨hnone, hdirs, -⟩ := h.of_get?_eq_none (h'.written f hf).1
      exact ⟨hnone, hdirs, (h'.written f hf).2⟩
  once := by
    rw [List.map_append, List.nodup_append]
    refine ⟨h.once, h'.once, fun p hp p' hp' heq => ?_⟩
    obtain ⟨f, hf, rfl⟩ := List.mem_map.mp hp
    obtain ⟨g, hg, rfl⟩ := List.mem_map.mp hp'
    have hnone := (h'.written g hg).1
    rw [← heq, h.get?_of_mem hf] at hnone
    cases hnone
  get?_eq p := by
    rw [h'.get?_eq]
    by_cases hp : p ∈ dirs'
    · obtain ⟨hnone, -, -⟩ := h.of_get?_eq_none (h'.made p hp)
      rw [h'.made p hp, hnone]
      simp [hp]
    · rw [h.get?_eq]
      simp [hp, List.lookup_append, Option.map_or, Option.or_assoc]

theorem isGiven_of_get?_eq_none (h : t.get? q = none) : isGiven q = false :=
  Bool.eq_false_iff.mpr fun hg => by simp [get?, hg] at h

theorem gains_put_directory (hq : t.get? q = none) : t.Gains (t.put q .directory) [q] [] where
  made p hp := by rwa [List.mem_singleton.mp hp]
  written := nofun
  once := .nil
  get?_eq p := by
    rw [t.get?_put q p .directory (isGiven_of_get?_eq_none hq)]
    by_cases hp : p = q <;> simp [hp, hq]

theorem gains_put_file (hq : t.get? q = none) (content : Payload) :
    t.Gains (t.put q (.file content)) [] [(q, content)] where
  made := nofun
  written f hf := by
    rw [List.mem_singleton.mp hf]
    exact ⟨hq, List.not_mem_nil⟩
  once := by simp
  get?_eq p := by
    rw [t.get?_put q p (.file content) (isGiven_of_get?_eq_none hq)]
    by_cases hp : p = q
    · simp [hp, hq]
    · simp [hp, List.lookup_cons, List.lookup_nil, beq_eq_false_iff_ne.mpr hp]

/-! ## Making directories -/

theorem ensureDirectory_eq_ok (h : t.ensureDirectory path = .ok t') :
    (∃ dirs, (∀ q ∈ dirs, q = Path.place path) ∧ t.Gains t' dirs [])
      ∧ t'.locate path = .ok (Path.place path) ∧ t'.get? (Path.place path) = some .directory := by
  unfold ensureDirectory at h
  cases hmake : t.makeDirectory path with
  | ok t₁ =>
    rw [hmake] at h
    cases h
    obtain ⟨q, hlocate, hmake⟩ := Decode.bind_eq_ok_iff.mp hmake
    obtain rfl := (locate_eq_ok_iff.mp hlocate).1
    cases hq : t.get? (Path.place path) with
    | some e => cases e <;> simp [hq] at hmake
    | none =>
      simp only [hq] at hmake
      split at hmake
      · cases hmake
      · cases hmake
        have hgains := gains_put_directory hq
        refine ⟨⟨_, fun q hq => List.mem_singleton.mp hq, hgains⟩,
          hgains.extends.locate hlocate, ?_⟩
        rw [hgains.get?_eq, hq]
        simp
  | error e =>
    rw [hmake] at h
    simp only at h
    split at h
    · next hdir =>
      cases h
      obtain ⟨q, hlocate, hq⟩ := status_eq_directory_iff.mp (isDirectory_iff.mp hdir)
      obtain rfl := (locate_eq_ok_iff.mp hlocate).1
      exact ⟨⟨[], nofun, .refl t⟩, hlocate, hq⟩
    · cases h

/-- Whatever becomes of a chain of paths, only directories on these paths are made. -/
theorem gains_makeChain (t : FileTree) (paths : List String) :
    ∃ dirs, (∀ q ∈ dirs, ∃ path ∈ paths, q = Path.place path)
      ∧ t.Gains (t.makeChain paths).1 dirs [] := by
  induction paths generalizing t with
  | nil => exact ⟨[], nofun, .refl t⟩
  | cons path parents ih =>
    have hfirst {t t' : FileTree} (h : t.ensureDirectory path = .ok t') : ∃ dirs,
        (∀ q ∈ dirs, ∃ path' ∈ path :: parents, q = Path.place path') ∧ t.Gains t' dirs [] := by
      obtain ⟨⟨dirs, hdirs, hgains⟩, -⟩ := ensureDirectory_eq_ok h
      exact ⟨dirs, fun q hq => ⟨path, List.mem_cons_self, hdirs q hq⟩, hgains⟩
    obtain ⟨dirs, hdirs, hgains⟩ := ih t
    have hparents (q : List String) (hq : q ∈ dirs) :
        ∃ path' ∈ path :: parents, q = Path.place path' := by
      obtain ⟨path', hmem, heq⟩ := hdirs q hq
      exact ⟨path', List.mem_cons_of_mem _ hmem, heq⟩
    unfold makeChain
    split
    · next h => exact hfirst h
    · split
      · next t₁ e hchain =>
        rw [hchain] at hgains
        exact ⟨dirs, hparents, hgains⟩
      · next t₁ u hchain =>
        rw [hchain] at hgains
        split
        · next t₂ h =>
          obtain ⟨dirs', hdirs', hgains'⟩ := hfirst h
          refine ⟨dirs ++ dirs', ?_, hgains.trans hgains'⟩
          exact List.forall_mem_append.mpr ⟨hparents, hdirs'⟩
        · exact ⟨dirs, hparents, hgains⟩
    · exact ⟨[], nofun, .refl t⟩

/-- If a chain has been made, its first path leads to a directory. -/
theorem directory_of_makeChain {parents : List String}
    (h : t.makeChain (path :: parents) = (t', .ok ())) :
    t'.locate path = .ok (Path.place path) ∧ t'.get? (Path.place path) = some .directory := by
  unfold makeChain at h
  split at h
  · next hfirst =>
    cases h
    exact (ensureDirectory_eq_ok hfirst).2
  · split at h
    · cases h
    · split at h
      · next hagain =>
        cases h
        exact (ensureDirectory_eq_ok hagain).2
      · cases h
  · cases h

theorem place_mem_passes {path' : String} (hmem : path' ∈ chain path) :
    Path.place path' ∈ Path.passes path ∨ Path.place path' = [] := by
  unfold chain at hmem
  split at hmem
  · cases hmem
  · rw [Path.mem_passes_iff]
    rcases List.mem_cons.mp hmem with rfl | hmem
    · by_cases hnames : Path.names path' = []
      · exact .inr (by simp [Path.place, hnames])
      · have hpos := List.length_pos_iff.mpr hnames
        refine .inl ⟨(Path.names path').length - 1, by omega, ?_⟩
        rw [Nat.sub_add_cancel hpos, List.take_length]
        rfl
    · simp only [List.mem_map, List.mem_reverse, List.mem_range] at hmem
      obtain ⟨n, hn, rfl⟩ := hmem
      exact .inl ⟨n, by omega, by rw [Path.place, Path.names_pathOfNames_take]⟩

/-- Whatever becomes of it, making directories makes nothing but directories that a path passes. -/
theorem gains_makeDirectories (t : FileTree) (path : String) :
    ∃ dirs, (∀ q ∈ dirs, q ∈ Path.passes path) ∧ t.Gains (t.makeDirectories path).1 dirs [] := by
  obtain ⟨dirs, hdirs, hgains⟩ := gains_makeChain t (chain path)
  refine ⟨dirs, fun q hq => ?_, hgains⟩
  obtain ⟨path', hmem, rfl⟩ := hdirs q hq
  -- A path without names leads to where walks begin, and there is always a directory.
  refine (place_mem_passes hmem).resolve_right fun hroot => ?_
  have hnone := hgains.made _ hq
  rw [hroot] at hnone
  cases hnone

/-- When directories have been made, all places that the path passes are directories. -/
theorem directory_of_makeDirectories (h : t.makeDirectories path = (t', .ok ())) :
    ∀ p ∈ Path.passes path, t'.get? p = some .directory := by
  unfold makeDirectories chain at h
  split at h
  · next hempty =>
    rw [String.isEmpty_iff.mp hempty]
    nofun
  · obtain ⟨hlocate, hdir⟩ := directory_of_makeChain h
    exact directory_of_passes hlocate hdir

/-! ## Writing -/

/-- A file that has been written lies at the place of its path. -/
theorem write_eq_ok (h : t.write path content = .ok t') :
    t.locate path = .ok (Path.place path) ∧ Path.meansDirectory path = false
      ∧ t.get? (Path.place path) ≠ some .directory
      ∧ t' = t.put (Path.place path) (.file content) := by
  obtain ⟨q, hlocate, h⟩ := Decode.bind_eq_ok_iff.mp h
  obtain rfl := (locate_eq_ok_iff.mp hlocate).1
  split at h
  · cases h
  all_goals
    next hq =>
    split at h
    · cases h
    · next hname =>
      cases h
      exact ⟨hlocate, Bool.eq_false_iff.mpr hname, by simp [hq], rfl⟩

/-- Nothing but the file that is written changes. -/
theorem get?_write (h : t.write path content = .ok t') (p : List String) :
    t'.get? p = if p = Path.place path then some (.file content) else t.get? p := by
  obtain ⟨-, -, hdir, rfl⟩ := write_eq_ok h
  have hgiven : isGiven (Path.place path) = false :=
    Bool.eq_false_iff.mpr fun hg => hdir (by simp [get?, hg])
  exact get?_put _ _ _ _ hgiven

end FileTree

end StreamDispatch
