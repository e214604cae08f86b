import StreamDispatch.Poison.Store
import StreamDispatch.Proofs.FileTree

set_option autoImplicit false

/-! # Reports that are kept

A report is kept in files whose names end in an identifier. If the identifier is new, nothing that
has been there before is in the way of these files, and they are in the way of nothing: keeping a
report adds its files, or the first of them if it fails, and directories that were missing on the
way to them (`PoisonReport.Kept`, `PoisonReport.Failed`). So however many reports are published,
with whatever names and in whatever order, all files of all reports that were kept can be read for
ever (`PoisonStore.published_files_stay`). -/

namespace StreamDispatch

/-! ## Names of reports -/

open StreamDispatch.Path (IsName)

theorem slash_notMem_safeName (name : String) : '/' ∉ (safeName name).toList := by
  simp only [safeName]
  split
  · decide
  · simp only [String.toList_ofList, List.mem_map, not_exists, not_and]
    intro c _
    split
    · decide
    · next hc =>
      rintro rfl
      exact hc rfl

namespace PoisonReport

variable {r : PoisonReport} {root id : String} {t t' : FileTree}

/-- The endings of the names of the files that keep a report. -/
def endings : List String := ["", ".json", "_exception"]

theorem toList_fileName (ending : String) : (r.fileName id ++ ending).toList
    = (safeName r.context.offset).toList ++ '_' :: (id.toList ++ ending.toList) := by
  simp [fileName]

theorem isName_fileName (r : PoisonReport) (hid : '/' ∉ id.toList) {ending : String}
    (he : ending ∈ endings) :
    IsName (r.fileName id ++ ending) ∧ r.fileName id ++ ending ≠ ".." := by
  have hslash : '/' ∉ ending.toList := by
    have hall : ∀ e ∈ endings, '/' ∉ e.toList := by decide
    exact hall ending he
  have hmem : '_' ∈ (r.fileName id ++ ending).toList := by
    rw [toList_fileName]
    simp
  have hne {s : String} (hs : '_' ∉ s.toList) : r.fileName id ++ ending ≠ s := fun heq =>
    hs (heq ▸ hmem)
  refine ⟨⟨?_, hne (by decide), hne (by decide)⟩, hne (by decide)⟩
  rw [toList_fileName, List.mem_append, List.mem_cons, List.mem_append, not_or, not_or, not_or]
  exact ⟨slash_notMem_safeName _, by decide, hid, hslash⟩

theorem fileName_injective {ending ending' : String}
    (h : r.fileName id ++ ending = r.fileName id ++ ending') : ending = ending' := by
  have hlist := congrArg String.toList h
  simp only [toList_fileName, List.append_cancel_left_eq, List.cons.injEq, true_and] at hlist
  exact String.toList_inj.mp hlist

theorem place_path (r : PoisonReport) (root : String) (hid : '/' ∉ id.toList) (ending : String)
    (he : ending ∈ endings) : Path.place (r.path root id ++ ending)
      = Path.place (r.directory root) ++ [r.fileName id ++ ending] := by
  have hne : r.fileName id ≠ "" := by
    have hempty : r.fileName id ++ "" ≠ "" :=
      (isName_fileName r hid List.mem_cons_self).1.ne_empty
    rwa [String.append_empty] at hempty
  obtain ⟨hname, hup⟩ := isName_fileName r hid he
  rw [path, Path.join_append _ _ hne, Path.place_join _ hname hup]

/-- The places of the files that keep a report, with their contents. -/
def placed (r : PoisonReport) (root id : String) : List (List String × Payload) :=
  let directory := Path.place (r.directory root)
  [(directory ++ [r.fileName id], r.payload),
    (directory ++ [r.fileName id ++ ".json"], utf8 r.description.pretty)]
    ++ (r.error.map fun e => (directory ++ [r.fileName id ++ "_exception"], utf8 e)).toList

theorem placed_eq (hid : '/' ∉ id.toList) :
    (r.files root id).map (fun f => (Path.place f.1, f.2)) = r.placed root id := by
  have hpayload := place_path r root hid "" (by decide)
  have hjson := place_path r root hid ".json" (by decide)
  have hexception := place_path r root hid "_exception" (by decide)
  rw [String.append_empty, String.append_empty] at hpayload
  cases he : r.error <;> simp [files, placed, he, hpayload, hjson, hexception]

/-- The files of a report have different names, which all have the identifier in them. -/
theorem nodup_placed (r : PoisonReport) (root id : String) :
    ((r.placed root id).map Prod.fst).Nodup := by
  have hne (e e' : String) (he : e ≠ e') : r.fileName id ++ e ≠ r.fileName id ++ e' :=
    fun heq => he (fileName_injective heq)
  have hjson := hne "" ".json" (by decide)
  have hexception := hne "" "_exception" (by decide)
  have hboth := hne ".json" "_exception" (by decide)
  rw [String.append_empty] at hjson hexception
  cases he : r.error <;> simp [placed, he, -String.append_right_inj, hjson, hexception, hboth]

theorem id_of_mem_placed {f : List String × Payload} (hf : f ∈ r.placed root id) :
    ∃ n ∈ f.1, id.toList <:+: n.toList := by
  have hinfix (ending : String) : id.toList <:+: (r.fileName id ++ ending).toList :=
    ⟨(safeName r.context.offset).toList ++ ['_'], ending.toList, by rw [toList_fileName]; simp⟩
  have hpayload := hinfix ""
  rw [String.append_empty] at hpayload
  simp only [placed, List.mem_append, List.mem_cons, List.not_mem_nil, or_false,
    Option.mem_toList, Option.map_eq_some_iff] at hf
  rcases hf with (rfl | rfl) | ⟨e, -, rfl⟩
  · exact ⟨_, by simp, hpayload⟩
  · exact ⟨_, by simp, hinfix ".json"⟩
  · exact ⟨_, by simp, hinfix "_exception"⟩

end PoisonReport

/-! ## Writing files -/

namespace FileTree

variable {t t' : FileTree}

/-- Files that are in the way of no other files and of each other are written until one cannot be
written. -/
theorem gains_writeAll {files : List (String × Payload)} (t : FileTree)
    (hfree : ∀ f ∈ files, ∀ c, t.get? (Path.place f.1) ≠ some (.file c))
    (honce : (files.map fun f => Path.place f.1).Nodup) :
    ∃ written, written <+: files.map (fun f => (Path.place f.1, f.2))
      ∧ t.Gains (t.writeAll files).1 [] written
      ∧ ((t.writeAll files).2 = .ok () → written = files.map (fun f => (Path.place f.1, f.2))
        ∧ ∀ f ∈ files, (t.writeAll files).1.read f.1 = .ok f.2)
      ∧ ((t.writeAll files).2 ≠ .ok () → written ≠ files.map (fun f => (Path.place f.1, f.2))) := by
  induction files generalizing t with
  | nil => exact ⟨[], List.prefix_refl _, .refl t, fun _ => ⟨rfl, nofun⟩, fun h => absurd rfl h⟩
  | cons f rest ih =>
    obtain ⟨path, content⟩ := f
    rw [List.forall_mem_cons] at hfree
    obtain ⟨hnew, hrest⟩ := List.nodup_cons.mp honce
    rw [writeAll]
    cases hwrite : t.write path content with
    | error e => exact ⟨[], List.nil_prefix, .refl t, nofun, fun _ => nofun⟩
    | ok t₁ =>
      obtain ⟨hlocate, hname, hdir, rfl⟩ := write_eq_ok hwrite
      have hnone : t.get? (Path.place path) = none := by
        cases he : t.get? (Path.place path) with
        | none => rfl
        | some e =>
          cases e with
          | directory => exact absurd he hdir
          | file c => exact absurd he (hfree.1 c)
      have hfirst := gains_put_file hnone content
      -- The file that has just been written is not in the way of the others.
      have hothers : ∀ f ∈ rest, ∀ c,
          (t.put (Path.place path) (.file content)).get? (Path.place f.1) ≠ some (.file c) := by
        intro f hf c
        have hne : Path.place f.1 ≠ Path.place path := fun heq =>
          hnew (List.mem_map.mpr ⟨f, hf, heq⟩)
        rw [get?_put _ _ _ _ (isGiven_of_get?_eq_none hnone), if_neg hne]
        exact hfree.2 f hf c
      obtain ⟨written, hprefix, hgains, hok, herror⟩ := ih _ hothers hrest
      have hall := hfirst.trans hgains
      refine ⟨(Path.place path, content) :: written, List.cons_prefix_cons.mpr ⟨rfl, hprefix⟩, hall,
        fun h => ?_, fun h heq => herror h (List.cons.inj heq).2⟩
      obtain ⟨hwritten, hread⟩ := hok h
      refine ⟨by rw [hwritten]; rfl, List.forall_mem_cons.mpr ⟨?_, hread⟩⟩
      exact read_eq_ok_iff.mpr ⟨_, hall.extends.locate hlocate,
        hall.get?_of_mem (f := (Path.place path, content)) List.mem_cons_self, hname⟩

/-- An identifier that occurs in no name on the way to anything that exists. -/
def IsNew (id : String) (t : FileTree) : Prop :=
  ∀ p, (t.get? p).isSome = true → ∀ n ∈ p, ¬id.toList <:+: n.toList

theorem exists_of_find_eq_some {p : List String} {e : FileEntry}
    {entries : List (List String × FileEntry)} (h : find p entries = some e) :
    ∃ x ∈ entries, x.1 = p := by
  induction entries with
  | nil => cases h
  | cons x rest ih =>
    by_cases hx : x.1 = p
    · exact ⟨x, List.mem_cons_self, hx⟩
    · rw [find, if_neg hx] at h
      obtain ⟨y, hy, heq⟩ := ih h
      exact ⟨y, List.mem_cons_of_mem _ hy, heq⟩

/-- Whether an identifier is new is told by the names that are in a tree. -/
theorem isNew_of_entries {id : String} (hroot : ¬id.toList <:+: ['/'])
    (h : ∀ x ∈ t.entries, ∀ n ∈ x.1, ¬id.toList <:+: n.toList) : t.IsNew id := by
  intro p hp n hn
  unfold get? at hp
  split at hp
  · next hgiven =>
    rcases (by simpa [isGiven] using hgiven : p = [] ∨ p = ["/"]) with rfl | rfl
    · cases hn
    · rwa [List.mem_singleton.mp hn]
  · obtain ⟨e, he⟩ := Option.isSome_iff_exists.mp hp
    obtain ⟨x, hx, rfl⟩ := exists_of_find_eq_some he
    exact h x hx n hn

end FileTree

/-! ## Keeping a report -/

namespace PoisonReport

variable {r : PoisonReport} {root id : String} {t t' : FileTree}

/-- A report has been kept: its files have been added, each with its content, and the directories
that were missing on the way to them. -/
structure Kept (r : PoisonReport) (root id : String) (t t' : FileTree) : Prop where
  gains : ∃ dirs, (∀ q ∈ dirs, q ∈ Path.passes (r.directory root))
    ∧ t.Gains t' dirs (r.placed root id)
  directories : ∀ q ∈ Path.passes (r.directory root), t'.get? q = some .directory
  readable : ∀ f ∈ r.files root id, t'.read f.1 = .ok f.2

/-- A report has not been kept: only the first of its files have been added, if any, and some
directories on the way to them. -/
structure Failed (r : PoisonReport) (root id : String) (t t' : FileTree) : Prop where
  gains : ∃ dirs written, (∀ q ∈ dirs, q ∈ Path.passes (r.directory root))
    ∧ written <+: r.placed root id ∧ written ≠ r.placed root id ∧ t.Gains t' dirs written

theorem Kept.extends (h : r.Kept root id t t') : t.Extends t' := by
  obtain ⟨_, -, hgains⟩ := h.gains
  exact hgains.extends

theorem Failed.extends (h : r.Failed root id t t') : t.Extends t' := by
  obtain ⟨_, _, -, -, -, hgains⟩ := h.gains
  exact hgains.extends

/-- What may become of a tree in which a report is to be kept. Nothing that is there is changed or
removed in any case. -/
structure Stored (r : PoisonReport) (root id : String) (t t' : FileTree)
    (result : Except FileFailure Unit) : Prop where
  stays : t.Extends t'
  kept : result = .ok () → r.Kept root id t t'
  failed : ∀ e, result = .error e → r.Failed root id t t'

theorem Stored.of_cases {result : Except FileFailure Unit}
    (kept : result = .ok () → r.Kept root id t t')
    (failed : ∀ e, result = .error e → r.Failed root id t t') : r.Stored root id t t' result where
  stays := by
    cases result with
    | ok u => exact (kept rfl).extends
    | error e => exact (failed e rfl).extends
  kept := kept
  failed := failed

/-- Keeping a report under a new identifier adds what it should, or a part of it if it fails. -/
theorem stored_store (r : PoisonReport) (root : String) (hid : '/' ∉ id.toList)
    (hnew : t.IsNew id) : r.Stored root id t (r.store root id t).1 (r.store root id t).2 := by
  obtain ⟨dirs, hdirs, hmade⟩ := FileTree.gains_makeDirectories t (r.directory root)
  unfold store
  split
  · next t₁ e hmake =>
    rw [hmake] at hmade
    have hne : [] ≠ r.placed root id := nofun
    exact .of_cases nofun fun _ _ => ⟨dirs, [], hdirs, List.nil_prefix, hne, hmade⟩
  · next t₁ u hmake =>
    rw [hmake] at hmade
    -- Where a file of the report is to lie, nothing was before, as the identifier is new; and
    -- nothing but directories has been made since.
    have hfree : ∀ f ∈ r.files root id, ∀ c, t₁.get? (Path.place f.1) ≠ some (.file c) := by
      intro f hf c hc
      have hplaced : (Path.place f.1, f.2) ∈ r.placed root id := by
        rw [← placed_eq hid]
        exact List.mem_map.mpr ⟨f, hf, rfl⟩
      obtain ⟨n, hn, hinfix⟩ := id_of_mem_placed hplaced
      refine hnew (Path.place f.1) ?_ n hn hinfix
      rw [hmade.get?_eq] at hc
      cases he : t.get? (Path.place f.1) with
      | some e => rfl
      | none =>
        rw [he, Option.none_or] at hc
        split at hc <;> cases hc
    have honce : ((r.files root id).map fun f => Path.place f.1).Nodup := by
      have hnd := nodup_placed r root id
      rwa [← placed_eq hid, List.map_map] at hnd
    obtain ⟨written, hprefix, hgains, hok, herror⟩ := FileTree.gains_writeAll t₁ hfree honce
    rw [placed_eq hid] at hprefix hok herror
    have hall := hmade.trans hgains
    rw [List.append_nil, List.nil_append] at hall
    refine .of_cases (fun h => ?_) fun e h => ?_
    · obtain ⟨rfl, hread⟩ := hok h
      refine ⟨⟨dirs, hdirs, hall⟩, fun q hq => ?_, hread⟩
      exact hgains.extends _ _ (FileTree.directory_of_makeDirectories hmake q hq)
    · exact ⟨dirs, written, hdirs, hprefix, herror (by simp [h]), hall⟩

end PoisonReport

/-! ## Many reports -/

namespace PoisonStore

variable {root : String} {t : FileTree} {reports : List (PoisonReport × String)}

/-- The tree after reports have been published one after the other, each with its identifier. -/
def publishAll (root : String) (t : FileTree) (reports : List (PoisonReport × String)) : FileTree :=
  reports.foldl (fun t x => ((directory root).publish x.1 x.2 t).1) t

@[simp] theorem publish_directory (r : PoisonReport) (id : String) (t : FileTree) :
    (directory root).publish r id t = r.store root id t := rfl

theorem publishAll_cons (x : PoisonReport × String) : publishAll root t (x :: reports)
    = publishAll root ((directory root).publish x.1 x.2 t).1 reports :=
  List.foldl_cons ..

theorem publishAll_append (before after : List (PoisonReport × String)) :
    publishAll root t (before ++ after) = publishAll root (publishAll root t before) after :=
  List.foldl_append

/-- Each report has an identifier that is new when the report is published. -/
def AllNew (root : String) : FileTree → List (PoisonReport × String) → Prop
  | _, [] => True
  | t, x :: rest => '/' ∉ x.2.toList ∧ t.IsNew x.2
    ∧ AllNew root ((directory root).publish x.1 x.2 t).1 rest

theorem allNew_cons {x : PoisonReport × String} : AllNew root t (x :: reports) ↔
    '/' ∉ x.2.toList ∧ t.IsNew x.2
      ∧ AllNew root ((directory root).publish x.1 x.2 t).1 reports :=
  Iff.rfl

theorem publishAll_extends (hnew : AllNew root t reports) :
    t.Extends (publishAll root t reports) := by
  induction reports generalizing t with
  | nil => exact .refl t
  | cons x rest ih =>
    obtain ⟨hid, hfirst, hrest⟩ := allNew_cons.mp hnew
    have hstays : t.Extends ((directory root).publish x.1 x.2 t).1 := by
      rw [publish_directory]
      exact (PoisonReport.stored_store _ root hid hfirst).stays
    rw [publishAll_cons]
    exact hstays.trans (ih hrest)

theorem allNew_append {before after : List (PoisonReport × String)}
    (hnew : AllNew root t (before ++ after)) :
    AllNew root t before ∧ AllNew root (publishAll root t before) after := by
  induction before generalizing t with
  | nil => exact ⟨trivial, hnew⟩
  | cons x rest ih =>
    obtain ⟨hid, hfirst, hnew⟩ := allNew_cons.mp hnew
    obtain ⟨hrest, hafter⟩ := ih hnew
    rw [publishAll_cons]
    exact ⟨allNew_cons.mpr ⟨hid, hfirst, hrest⟩, hafter⟩

/-- Whatever reports are published under a root, each with an identifier that is new, in any tree:
nothing that exists is changed or removed; a report that is kept adds exactly its files and missing
directories, and its files can be read with their contents for ever; a report that fails adds only
the first of its files, if any, and directories. -/
theorem published_files_stay (root : String) (t : FileTree)
    (reports : List (PoisonReport × String)) (hnew : AllNew root t reports) :
    t.Extends (publishAll root t reports)
      ∧ ∀ before r id after, reports = before ++ (r, id) :: after →
        let tree := publishAll root t before
        let published := (directory root).publish r id tree
        r.Stored root id tree published.1 published.2
          ∧ (published.2 = .ok () →
            ∀ f ∈ r.files root id, (publishAll root t reports).read f.1 = .ok f.2) := by
  refine ⟨publishAll_extends hnew, ?_⟩
  rintro before r id after rfl
  obtain ⟨hid, hnewer, hafter⟩ := allNew_cons.mp (allNew_append hnew).2
  have hstored := PoisonReport.stored_store r root hid hnewer
  refine ⟨hstored, fun h f hf => ?_⟩
  rw [publishAll_append, publishAll_cons]
  exact (publishAll_extends hafter).read ((hstored.kept h).readable f hf)

/-- A tree with a file in it. -/
def sampleTree : FileTree := ⟨[(["poison"], .directory), (["poison", "notes"], .file [1, 2])]⟩

/-- One report, which is published twice with other contents. -/
def sampleReport (content : Payload) (error : Option String) : PoisonReport :=
  ⟨.error, ⟨"telemetry", "0", "7"⟩, content, .empty, error⟩

def repeatedReports : List (PoisonReport × String) :=
  [(sampleReport [10] .none, "00000000000000000000000000000001"),
    (sampleReport [20] (some "again"), "00000000000000000000000000000002")]

theorem published_files_stay_repeated : AllNew "poison" sampleTree repeatedReports
    ∧ (publishAll "poison" sampleTree repeatedReports).read "poison/notes" = .ok [1, 2]
    ∧ (publishAll "poison" sampleTree repeatedReports).read
        "poison/Error/telemetry/0/7_00000000000000000000000000000001" = .ok [10] := by
  have hnew : AllNew "poison" sampleTree repeatedReports := by
    refine ⟨by decide, ?_, by decide, ?_, trivial⟩
    all_goals exact FileTree.isNew_of_entries (by decide) (by decide +kernel)
  have hok {x : Except FileFailure Unit} (h : x.isOk = true) : x = .ok () := by
    cases x with
    | ok u => rfl
    | error e => cases h
  obtain ⟨hstays, hkept⟩ := published_files_stay "poison" sampleTree repeatedReports hnew
  refine ⟨hnew, hstays.read rfl, ?_⟩
  exact (hkept [] _ _ _ rfl).2 (hok (by decide +kernel)) (_, [10]) (by decide +kernel)

end PoisonStore

end StreamDispatch
