import StreamDispatch.Message.Codec
import StreamDispatch.Proofs.Json.Reading
import StreamDispatch.Proofs.Poison.Opening
import StreamDispatch.Proofs.Text.Utf8

set_option autoImplicit false

/-! # What the files of a report tell

A report that has been kept can be told from its files: the payload is there byte for byte, the
description is read back as an object with the context, the failure mode and all headers, and there
is a file with the error if there is an error (`PoisonReport.IsToldBy`). So reports that differ in
one of these never leave the same files, and nothing hangs on the order in which the headers are
listed (`PoisonStore.published_whole`). -/

namespace StreamDispatch

/-! ## Writing -/

namespace FileTree

variable {t : FileTree} {files : List (String × Payload)} {path : String} {p q : List String}

theorem get?_writeAll_of_ne (h : ∀ f ∈ files, Path.place f.1 ≠ p) :
    (t.writeAll files).1.get? p = t.get? p := by
  induction files generalizing t with
  | nil => rfl
  | cons f rest ih =>
    obtain ⟨hf, hrest⟩ := List.forall_mem_cons.mp h
    rw [writeAll]
    cases hwrite : t.write f.1 f.2 with
    | error e => rfl
    | ok t₁ =>
      refine (ih hrest).trans ?_
      rw [get?_write hwrite, if_neg (Ne.symm hf)]

/-- Files in the way of directories are not written, so paths lead where they led. -/
theorem locate_writeAll (h : t.locate path = .ok q) : (t.writeAll files).1.locate path = .ok q := by
  obtain ⟨hplace, hlimits, hway⟩ := locate_eq_ok_iff.mp h
  exact locate_eq_ok_iff.mpr ⟨hplace, hlimits, fun k hk => directory_writeAll_iff.mpr (hway k hk)⟩

/-- Files with different places that have all been written can be read, whatever was there. -/
theorem read_writeAll (honce : (files.map fun f => Path.place f.1).Nodup)
    (hok : (t.writeAll files).2 = .ok ()) :
    ∀ f ∈ files, (t.writeAll files).1.read f.1 = .ok f.2 := by
  induction files generalizing t with
  | nil => nofun
  | cons f rest ih =>
    obtain ⟨hnew, hrest⟩ := List.nodup_cons.mp honce
    cases hwrite : t.write f.1 f.2 with
    | error e =>
      rw [writeAll, hwrite] at hok
      cases hok
    | ok t₁ =>
      have hfirst : t.writeAll (f :: rest) = t₁.writeAll rest := by
        rw [writeAll, hwrite]
      rw [hfirst] at hok ⊢
      refine List.forall_mem_cons.mpr ⟨?_, ih hrest hok⟩
      obtain ⟨hlocate, hname, -, -⟩ := write_eq_ok hwrite
      have hothers : ∀ g ∈ rest, Path.place g.1 ≠ Path.place f.1 := fun g hg heq =>
        hnew (List.mem_map.mpr ⟨g, hg, heq⟩)
      refine read_eq_ok_iff.mpr ⟨_, hfirst ▸ locate_writeAll hlocate, ?_, hname⟩
      rw [get?_writeAll_of_ne hothers, get?_write hwrite, if_pos rfl]

end FileTree

/-! ## Descriptions -/

namespace PoisonReport

variable {r r' : PoisonReport} {root id path path' : String} {t t' : FileTree}

theorem utf8_eq_bytes (s : String) : utf8 s = Text.bytes s := Text.toList_toUTF8 s

theorem utf8_injective {s s' : String} (h : utf8 s = utf8 s') : s = s' := by
  rw [utf8_eq_bytes, utf8_eq_bytes] at h
  exact Text.bytes_injective h

/-- The members of a description: where the report was read, why it is reported, and all of its
headers. -/
def described (r : PoisonReport) : List (String × Json) :=
  [("context", .string r.context.text), ("failureMode", .string r.mode.name),
    ("messageProperties", .object (r.headers.entries.map fun h => (h.1, .string h.2)))]

theorem sorted_described (r : PoisonReport) : r.described.Pairwise fun a b => a.1 < b.1 := by
  have hnames : ["context", "failureMode", "messageProperties"].Pairwise (· < ·) := by decide
  exact List.pairwise_map.mp hnames

theorem description_eq (r : PoisonReport) : r.description = .object r.described := by
  have hperm : List.Perm [("failureMode", Json.string r.mode.name),
      ("context", .string r.context.text), ("messageProperties", .ofTexts r.headers)] r.described :=
    .swap _ _ _
  rw [description, Json.ofMembers, Dictionary.ofList_of_perm (d := ⟨_, r.sorted_described⟩) hperm]

theorem canonical_description (r : PoisonReport) : r.description.Canonical := by
  rw [description_eq]
  refine .object r.sorted_described ?_
  simp only [described, List.forall_mem_cons, List.not_mem_nil, false_implies, implies_true,
    and_true]
  refine ⟨.string _, .string _, .object (List.pairwise_map.mpr r.headers.sorted) fun m hm => ?_⟩
  obtain ⟨h, -, rfl⟩ := List.mem_map.mp hm
  exact .string _

/-- The description of a report whose headers are inserted in some order. -/
def descriptionFrom (r : PoisonReport) (headers : List (String × String)) : Json :=
  .ofMembers
    [("failureMode", .string r.mode.name), ("context", .string r.context.text),
      ("messageProperties", .ofMembers (headers.map fun h => (h.1, .string h.2)))]

theorem descriptionFrom_eq {headers : List (String × String)}
    (h : headers.Perm r.headers.entries) : r.descriptionFrom headers = r.description := by
  have hperm : (headers.map fun h => (h.1, Json.string h.2)).Perm
      (r.headers.mapValues Json.string).entries := h.map _
  have hproperties : Json.ofMembers (headers.map fun h => (h.1, Json.string h.2))
      = Json.ofTexts r.headers := by
    rw [Json.ofMembers, Dictionary.ofList_of_perm hperm, Json.ofTexts]
  rw [descriptionFrom, hproperties, description]

/-! ## Files of a report -/

/-- What the files at a path tell about a report. -/
structure IsToldBy (r : PoisonReport) (t : FileTree) (path : String) : Prop where
  payload : t.read path = .ok r.payload
  /-- The description is the text of an object with the context, the failure mode and the headers,
  and with nothing else. -/
  description : ∃ text, t.read (path ++ ".json") = .ok (utf8 text)
    ∧ Json.parse? text = some (.object r.described)
  mode : FailureMode.ofJson (.string r.mode.name) = .ok r.mode
  exception : ∀ content, t.read (path ++ "_exception") = .ok content ↔
    ∃ e, r.error = some e ∧ content = utf8 e
  isFile : t.isFile (path ++ "_exception") = r.error.isSome

/-- The same can be read of the files at two paths. -/
def SameFiles (t : FileTree) (path : String) (t' : FileTree) (path' : String) : Prop :=
  ∀ ending ∈ endings, ∀ content,
    t.read (path ++ ending) = .ok content ↔ t'.read (path' ++ ending) = .ok content

/-- What is the same in two reports of which the files have the same contents. -/
theorem IsToldBy.eq_of_sameFiles (h : r.IsToldBy t path) (h' : r'.IsToldBy t' path')
    (hsame : SameFiles t path t' path') :
    r.mode = r'.mode ∧ r.payload = r'.payload ∧ r.headers = r'.headers ∧ r.error = r'.error := by
  obtain ⟨text, htext, hparse⟩ := h.description
  obtain ⟨text', htext', hparse'⟩ := h'.description
  have hdescription := (hsame ".json" (by decide) _).mp htext
  rw [htext'] at hdescription
  obtain rfl : text' = text := utf8_injective (Except.ok.inj hdescription)
  rw [hparse] at hparse'
  simp only [described, Option.some.injEq, Json.object.injEq, List.cons.injEq, Prod.mk.injEq,
    Json.string.injEq, true_and, and_true] at hparse'
  obtain ⟨-, hmode, hheaders⟩ := hparse'
  refine ⟨FailureMode.name_injective hmode, ?_, ?_, ?_⟩
  · have hpayload := (hsame "" (by decide) r.payload).mp (by rw [String.append_empty, h.payload])
    rw [String.append_empty, h'.payload] at hpayload
    exact (Except.ok.inj hpayload).symm
  · have hinjective : Function.Injective fun h : String × String => (h.1, Json.string h.2) := by
      intro x y hxy
      simpa [Prod.ext_iff] using hxy
    exact Dictionary.eq_of_entries (List.map_injective_iff.mpr hinjective hheaders)
  · ext e
    have hexception := hsame "_exception" (by decide) (utf8 e)
    rw [h.exception, h'.exception] at hexception
    have herror (o : Option String) : (∃ e', o = some e' ∧ utf8 e = utf8 e') ↔ o = some e := by
      constructor
      · rintro ⟨e', ho, heq⟩
        rw [ho, utf8_injective heq]
      · exact fun ho => ⟨e, ho, rfl⟩
    rwa [herror, herror] at hexception

/-! ## Keeping a report -/

/-- No file lies where the error of a report goes. -/
def NoException (r : PoisonReport) (root id : String) (t : FileTree) : Prop :=
  ∀ content, t.get? (Path.place (r.path root id ++ "_exception")) ≠ some (.file content)

/-- With an identifier that is new there is no such file. -/
theorem noException_of_isNew (hid : IsIdentifier id) (hnew : t.IsNew id) :
    r.NoException root id t := by
  intro content h
  rw [place_path r root hid.slash "_exception" (by decide)] at h
  refine hnew _ (by rw [h]; rfl) (r.fileName id ++ "_exception") (by simp) ?_
  exact ⟨(safeName r.context.offset).toList ++ ['_'], "_exception".toList, by
    rw [toList_fileName]
    simp⟩

/-- The files of a report that has been kept can be read, whatever was there before. -/
theorem read_store (hid : IsIdentifier id) (hok : (r.store root id t).2 = .ok ())
    {content : Payload} (hmem : (path, content) ∈ r.files root id) :
    (r.store root id t).1.read path = .ok content := by
  have honce : ((r.files root id).map fun f => Path.place f.1).Nodup := by
    have hnodup := nodup_placed r root id
    rwa [← placed_eq hid.slash, List.map_map] at hnodup
  unfold store at hok ⊢
  split at hok
  · cases hok
  · exact FileTree.read_writeAll honce hok (path, content) hmem

theorem payload_mem_files : (r.path root id, r.payload) ∈ r.files root id := by
  unfold files
  exact List.mem_append_left _ List.mem_cons_self

theorem description_mem_files :
    (r.path root id ++ ".json", utf8 r.description.pretty) ∈ r.files root id := by
  unfold files
  exact List.mem_append_left _ (List.mem_cons_of_mem _ List.mem_cons_self)

theorem exception_mem_files {e : String} (he : r.error = some e) :
    (r.path root id ++ "_exception", utf8 e) ∈ r.files root id := by
  unfold files
  rw [he]
  exact List.mem_append_right _ List.mem_cons_self

/-- Where a report has no error, no file with one is written. -/
theorem file_of_store_exception (hid : IsIdentifier id) (hnone : r.error = none) {content : Payload}
    (h : (r.store root id t).1.get? (Path.place (r.path root id ++ "_exception"))
      = some (.file content)) :
    t.get? (Path.place (r.path root id ++ "_exception")) = some (.file content) := by
  have hothers : ∀ f ∈ r.files root id,
      Path.place f.1 ≠ Path.place (r.path root id ++ "_exception") := by
    have hne (ending : String) (he : ending ∈ endings) (hending : ending ≠ "_exception") :
        Path.place (r.path root id ++ ending) ≠ Path.place (r.path root id ++ "_exception") := by
      rw [place_path r root hid.slash ending he, place_path r root hid.slash _ (by decide)]
      intro heq
      have hname := (List.cons.inj (List.append_cancel_left heq)).1
      exact hending (fileName_injective hname)
    have hpayload := hne "" (by decide) (by decide)
    rw [String.append_empty] at hpayload
    simpa [files, hnone] using ⟨hpayload, hne ".json" (by decide) (by decide)⟩
  unfold store at h
  split at h
  · next hmake => exact FileTree.file_of_makeDirectories hmake h
  · next hmake =>
    rw [FileTree.get?_writeAll_of_ne hothers] at h
    exact FileTree.file_of_makeDirectories hmake h

/-- A report that has been kept is told by its files. -/
theorem isToldBy_store (hid : IsIdentifier id) (hok : (r.store root id t).2 = .ok ())
    (hfree : r.NoException root id t) :
    r.IsToldBy (r.store root id t).1 (r.path root id) := by
  have hexception (content : Payload) :
      (r.store root id t).1.read (r.path root id ++ "_exception") = .ok content ↔
        ∃ e, r.error = some e ∧ content = utf8 e := by
    cases he : r.error with
    | none =>
      refine iff_of_false (fun h => ?_) nofun
      obtain ⟨q, hlocate, hfile, -⟩ := FileTree.read_eq_ok_iff.mp h
      have hq := (FileTree.locate_eq_ok_iff.mp hlocate).1
      rw [hq] at hfile
      exact hfree content (file_of_store_exception hid he hfile)
    | some e =>
      rw [read_store hid hok (exception_mem_files he)]
      simp [eq_comm]
  refine ⟨read_store hid hok payload_mem_files, ⟨r.description.pretty,
    read_store hid hok description_mem_files, ?_⟩, ?_, hexception, ?_⟩
  · rw [Json.parse?_pretty r.canonical_description, description_eq]
  · cases r.mode <;> rfl
  · rw [Bool.eq_iff_iff, FileTree.isFile_iff, Option.isSome_iff_exists]
    simp only [hexception]
    exact ⟨fun ⟨_, e, he, _⟩ => ⟨e, he⟩, fun ⟨e, he⟩ => ⟨_, e, he, rfl⟩⟩

end PoisonReport

/-! ## Publishing a report -/

namespace PoisonStore

open PoisonReport

/-- A report that has been published is told by its files: by them it differs from every report with
another failure mode, payload, headers or error, wherever that was published, and the text of the
description is the same in whatever order the headers are listed. -/
theorem published_whole {r : PoisonReport} {root id : String} {t : FileTree} (hid : IsIdentifier id)
    (hok : ((directory root).publish r id t).2 = .ok ()) (hfree : r.NoException root id t) :
    r.IsToldBy ((directory root).publish r id t).1 (r.path root id)
      ∧ (∀ headers, headers.Perm r.headers.entries →
        ((directory root).publish r id t).1.read (r.path root id ++ ".json")
          = .ok (utf8 (r.descriptionFrom headers).pretty))
      ∧ ∀ (r' : PoisonReport) (root' id' : String) (t' : FileTree), IsIdentifier id' →
        ((directory root').publish r' id' t').2 = .ok () → r'.NoException root' id' t' →
        SameFiles ((directory root).publish r id t).1 (r.path root id)
          ((directory root').publish r' id' t').1 (r'.path root' id') →
        r.mode = r'.mode ∧ r.payload = r'.payload ∧ r.headers = r'.headers
          ∧ r.error = r'.error := by
  simp only [publish_directory] at hok ⊢
  have htold := isToldBy_store hid hok hfree
  refine ⟨htold, fun headers hheaders => ?_, fun r' root' id' t' hid' hok' hfree' hsame => ?_⟩
  · rw [descriptionFrom_eq hheaders]
    exact read_store hid hok description_mem_files
  · exact htold.eq_of_sameFiles (isToldBy_store hid' hok' hfree') hsame

/-- A report with quotes, a backslash and a line feed in its headers, and without an error. -/
def awkwardReport : PoisonReport :=
  ⟨.timeout, ⟨"telemetry", "0", "7"⟩, [0, 255], .ofList [("", "\"\\\n"), ("k", "")], .none⟩

theorem published_whole_awkward :
    (IsIdentifier "0123456789abcdef0123456789abcdef"
        ∧ ((directory "poison").publish awkwardReport "0123456789abcdef0123456789abcdef"
          sampleTree).2 = .ok ()
        ∧ awkwardReport.NoException "poison" "0123456789abcdef0123456789abcdef" sampleTree)
      ∧ ∃ text, ((directory "poison").publish awkwardReport "0123456789abcdef0123456789abcdef"
          sampleTree).1.read
            (awkwardReport.path "poison" "0123456789abcdef0123456789abcdef" ++ ".json")
          = .ok (utf8 text)
        ∧ Json.parse? text = some (.object [("context", .string "telemetry/0/7"),
          ("failureMode", .string "Timeout"),
          ("messageProperties", .object [("", .string "\"\\\n"), ("k", .string "")])]) := by
  have hid : IsIdentifier "0123456789abcdef0123456789abcdef" := ⟨by decide, by simp⟩
  have hok : ((directory "poison").publish awkwardReport "0123456789abcdef0123456789abcdef"
      sampleTree).2 = .ok () := by
    decide +kernel
  have hfree : awkwardReport.NoException "poison" "0123456789abcdef0123456789abcdef" sampleTree :=
    noException_of_isNew hid (FileTree.isNew_of_entries (by decide) (by decide +kernel))
  exact ⟨⟨hid, hok, hfree⟩, (published_whole hid hok hfree).1.description⟩

end PoisonStore

end StreamDispatch
