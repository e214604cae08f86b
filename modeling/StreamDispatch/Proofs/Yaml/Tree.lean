import StreamDispatch.Proofs.Decode.Record
import StreamDispatch.Proofs.Yaml.Entries
import StreamDispatch.Yaml.Value.Parser

set_option autoImplicit false

/-! # Trees of values

Not every value is what some text stands for: in a document no mapping has the same key twice. The
value of every text that is read keeps to that (`hasDistinctKeys_of_parse`), so it is a property
that theorems on documents may rely on. A tree without tags is one whose nodes are what they look
like. -/

namespace StreamDispatch.Yaml.Value

variable {entries : List (Value × Value)} {key v : Value} {name : String}

/-! ## Distinct keys -/

mutual

/-- Whether no mapping in a tree has the same key twice. -/
def hasDistinctKeys : Value → Bool
  | .sequence items => haveDistinctKeys items
  | .mapping entries => areDistinct entries
  | .tagged _ v => v.hasDistinctKeys
  | _ => true

def haveDistinctKeys : List Value → Bool
  | [] => true
  | v :: rest => v.hasDistinctKeys && haveDistinctKeys rest

/-- Whether entries have distinct keys, and the trees in them too. -/
def areDistinct : List (Value × Value) → Bool
  | [] => true
  | (k, v) :: rest =>
    rest.all (fun e => !e.1.same k) && k.hasDistinctKeys && v.hasDistinctKeys && areDistinct rest

end

theorem haveDistinctKeys_iff {items : List Value} :
    haveDistinctKeys items = true ↔ ∀ v ∈ items, v.hasDistinctKeys = true := by
  induction items with
  | nil => simp [haveDistinctKeys]
  | cons v rest ih => simp [haveDistinctKeys, ih]

theorem areDistinct_cons {k v : Value} : areDistinct ((k, v) :: entries) = true ↔
    (∀ e ∈ entries, e.1.same k = false) ∧ k.hasDistinctKeys = true ∧ v.hasDistinctKeys = true
      ∧ areDistinct entries = true := by
  simp [areDistinct, and_assoc]

/-- An entry with a new key leaves the keys distinct. -/
theorem areDistinct_concat {k v : Value} (h : areDistinct entries = true)
    (hnew : lookup k entries = none) (hk : k.hasDistinctKeys = true)
    (hv : v.hasDistinctKeys = true) : areDistinct (entries ++ [(k, v)]) = true := by
  induction entries with
  | nil => simp [areDistinct, hk, hv]
  | cons e rest ih =>
    obtain ⟨k', v'⟩ := e
    obtain ⟨hhead, hk', hv', hrest⟩ := areDistinct_cons.mp h
    obtain ⟨hne, hnew⟩ : k.same k' = false ∧ lookup k rest = none := by
      cases hsame : k.same k' <;> simp_all [lookup]
    rw [List.cons_append, areDistinct_cons]
    refine ⟨?_, hk', hv', ih hrest hnew⟩
    intro e he
    rcases List.mem_append.mp he with he | he
    · exact hhead e he
    · rwa [List.mem_singleton.mp he]

theorem once_of_areDistinct (h : areDistinct entries = true) : Once entries := by
  induction entries with
  | nil => exact .nil
  | cons e rest ih =>
    obtain ⟨k, v⟩ := e
    obtain ⟨hhead, -, -, hrest⟩ := areDistinct_cons.mp h
    refine List.pairwise_cons.mpr ⟨?_, ih hrest⟩
    rintro e he name rfl hname
    have hsame := hhead e he
    rw [hname] at hsame
    simp [same] at hsame

theorem hasDistinctKeys_of_mem (h : areDistinct entries = true) {e : Value × Value}
    (he : e ∈ entries) : e.2.hasDistinctKeys = true := by
  induction entries with
  | nil => cases he
  | cons head rest ih =>
    obtain ⟨k, v⟩ := head
    obtain ⟨-, -, hv, hrest⟩ := areDistinct_cons.mp h
    rcases List.mem_cons.mp he with rfl | he
    · exact hv
    · exact ih hrest he

/-! ## Text keys -/

/-- Whether a value is a mapping with nothing but texts as keys. -/
def isTextKeyed : Value → Bool
  | .mapping entries => entries.all fun e => (e.1 matches .text _)
  | _ => false

theorem exists_of_isTextKeyed (h : v.isTextKeyed = true) :
    ∃ entries, v = .mapping entries ∧ ∀ e ∈ entries, ∃ name, e.1 = .text name := by
  cases v with
  | mapping entries =>
    refine ⟨entries, rfl, fun e he => ?_⟩
    have hkey := List.all_eq_true.mp h e he
    split at hkey
    · next name hname => exact ⟨name, hname⟩
    · cases hkey
  | _ => cases h

/-- A mapping with texts as keys is a table, as no key of it stands there twice. -/
theorem isTable_of_isTextKeyed (hd : v.hasDistinctKeys = true) (h : v.isTextKeyed = true) :
    v.IsTable := by
  obtain ⟨entries, rfl, htexts⟩ := exists_of_isTextKeyed h
  exact ⟨entries, rfl, htexts, once_of_areDistinct hd⟩

theorem IsTable.hasDistinctKeys_of_get? {w : Value} (hv : v.IsTable)
    (hd : v.hasDistinctKeys = true) (hw : v.get? name = some w) : w.hasDistinctKeys = true := by
  obtain ⟨entries, rfl, -⟩ := hv
  exact hasDistinctKeys_of_mem hd (mem_of_lookup hw)

/-! ## Trees without tags -/

mutual

/-- Whether there is no tag in a tree. -/
def isTagFree : Value → Bool
  | .sequence items => areTagFree items
  | .mapping entries => haveNoTags entries
  | .tagged _ _ => false
  | _ => true

def areTagFree : List Value → Bool
  | [] => true
  | v :: rest => v.isTagFree && areTagFree rest

def haveNoTags : List (Value × Value) → Bool
  | [] => true
  | (k, v) :: rest => k.isTagFree && v.isTagFree && haveNoTags rest

end

theorem isTagFree_of_mem (h : haveNoTags entries = true) {e : Value × Value} (he : e ∈ entries) :
    e.2.isTagFree = true := by
  induction entries with
  | nil => cases he
  | cons head rest ih =>
    obtain ⟨k, v⟩ := head
    simp only [haveNoTags, Bool.and_eq_true] at h
    rcases List.mem_cons.mp he with rfl | he
    · exact h.1.2
    · exact ih h.2 he

theorem IsTable.isTagFree_of_get? {w : Value} (hv : v.IsTable) (hf : v.isTagFree = true)
    (hw : v.get? name = some w) : w.isTagFree = true := by
  obtain ⟨entries, rfl, -⟩ := hv
  exact isTagFree_of_mem hf (mem_of_lookup hw)

theorem untagged_of_isTagFree (h : v.isTagFree = true) : v.untagged = v := by
  cases v with
  | tagged tag w => cases h
  | _ => rfl

/-! ## What is read from a text -/

section Reading

variable {α β : Type}

theorem run_bind_eq_ok_iff {x : Build α} {f : α → Build β} {n m : Nat} {b : β} :
    (x >>= f).run n = .ok (b, m) ↔ ∃ a n', x.run n = .ok (a, n') ∧ (f a).run n' = .ok (b, m) := by
  rw [StateT.run_bind, Decode.bind_eq_ok_iff]
  exact ⟨fun ⟨(a, n'), h⟩ => ⟨a, n', h⟩, fun ⟨a, n', h⟩ => ⟨(a, n'), h⟩⟩

/-- What every step keeps is kept. -/
theorem foldlM_keeps {P : α → Prop} {step : α → β → Build α}
    (hstep : ∀ a b n a' n', P a → (step a b).run n = .ok (a', n') → P a') {items : List β}
    {a a' : α} {n n' : Nat} (ha : P a) (h : (items.foldlM step a).run n = .ok (a', n')) :
    P a' := by
  induction items generalizing a n with
  | nil =>
    cases h
    exact ha
  | cons b rest ih =>
    rw [List.foldlM_cons, run_bind_eq_ok_iff] at h
    obtain ⟨a₁, n₁, h₁, h⟩ := h
    exact ih (hstep a b n a₁ n₁ ha h₁) h

/-- What each item is turned into has what all such items have. -/
theorem mapM_all {P : β → Prop} {f : α → Build β}
    (hf : ∀ a n b n', (f a).run n = .ok (b, n') → P b) {items : List α} {n n' : Nat} {bs : List β}
    (h : (items.mapM f).run n = .ok (bs, n')) : ∀ b ∈ bs, P b := by
  induction items generalizing n bs with
  | nil =>
    cases h
    exact nofun
  | cons a rest ih =>
    simp only [List.mapM_cons, run_bind_eq_ok_iff] at h
    obtain ⟨b, n₁, hb, bs', n₂, hbs, h⟩ := h
    cases h
    exact List.forall_mem_cons.mpr ⟨hf a n b n₁ hb, ih hbs⟩

end Reading

theorem hasDistinctKeys_ofMeaning (m : Meaning) : (ofMeaning m).hasDistinctKeys = true := by
  cases m <;> rfl

theorem hasDistinctKeys_withTag {tag : Option String} (h : v.hasDistinctKeys = true) :
    (withTag tag v).hasDistinctKeys = true := by
  unfold withTag
  split
  · split
    · simpa [hasDistinctKeys] using h
    · exact h
  · exact h

theorem hasDistinctKeys_ofScalar {tag : Option String} {plain : Bool} {written : String}
    (h : ofScalar tag plain written = .ok v) : v.hasDistinctKeys = true := by
  have hmap {x : Except Error Meaning} {f : Meaning → Value}
      (hf : ∀ m, (f m).hasDistinctKeys = true) (hx : x.map f = .ok v) :
      v.hasDistinctKeys = true := by
    cases x with
    | error e => cases hx
    | ok m =>
      cases hx
      exact hf m
  cases tag with
  | none => exact hmap hasDistinctKeys_ofMeaning h
  | some t =>
    simp only [ofScalar] at h
    split at h
    · exact hmap (fun m => by simpa [hasDistinctKeys] using hasDistinctKeys_ofMeaning m) h
    · split at h
      · exact hmap hasDistinctKeys_ofMeaning h
      · cases h
        rfl

/-- One entry is added to a mapping only if its key is new. -/
theorem areDistinct_step {build : Link → Build Value} {lk lv : Link} {n n' : Nat}
    {entries' : List (Value × Value)}
    (hbuild : ∀ l n v n', (build l).run n = .ok (v, n') → v.hasDistinctKeys = true)
    (hd : areDistinct entries = true)
    (h : (do
      let k ← build lk
      if (lookup k entries).isSome then throw .duplicateKey
      else return entries ++ [(k, ← build lv)] : Build (List (Value × Value))).run n
        = .ok (entries', n')) : areDistinct entries' = true := by
  obtain ⟨k, n₁, hk, h⟩ := run_bind_eq_ok_iff.mp h
  split at h
  · cases h
  · next hnew =>
    obtain ⟨v, n₂, hv, h⟩ := run_bind_eq_ok_iff.mp h
    cases h
    exact areDistinct_concat hd (by simpa using hnew) (hbuild _ _ _ _ hk) (hbuild _ _ _ _ hv)

/-- Values are built with distinct keys, at every depth. -/
theorem hasDistinctKeys_of_ofLink {targets : List (Nat × Link)} {depth : Nat} {l : Link}
    {n n' : Nat} (h : (ofLink targets depth l).run n = .ok (v, n')) : v.hasDistinctKeys = true := by
  induction depth generalizing l v n n' with
  | zero =>
    unfold ofLink at h
    obtain ⟨target, n₁, -, h⟩ := run_bind_eq_ok_iff.mp h
    split at h
    · cases h
    · split at h
      · next hv =>
        cases h
        exact hasDistinctKeys_ofScalar hv
      · cases h
    · cases h
    · cases h
  | succ depth ih =>
    unfold ofLink at h
    obtain ⟨target, n₁, -, h⟩ := run_bind_eq_ok_iff.mp h
    split at h
    · cases h
    · split at h
      · next hv =>
        cases h
        exact hasDistinctKeys_ofScalar hv
      · cases h
    · obtain ⟨items, n₂, hitems, h⟩ := run_bind_eq_ok_iff.mp h
      cases h
      refine hasDistinctKeys_withTag ?_
      rw [hasDistinctKeys, haveDistinctKeys_iff]
      exact mapM_all (fun _ _ _ _ => ih) hitems
    · obtain ⟨entries, n₂, hentries, h⟩ := run_bind_eq_ok_iff.mp h
      cases h
      refine hasDistinctKeys_withTag ?_
      rw [hasDistinctKeys]
      refine foldlM_keeps (P := fun done => areDistinct done = true) ?_ rfl hentries
      rintro done ⟨k, v⟩ m done' m' hd hstep
      have hbuild (l : Link) (n : Nat) (v : Value) (n' : Nat)
          (h : (ofLink targets depth l).run n = .ok (v, n')) : v.hasDistinctKeys = true := ih h
      exact areDistinct_step hbuild hd hstep

/-- In what is read from a text no mapping has the same key twice. -/
theorem hasDistinctKeys_of_parse {s : String} (h : parse s = .ok v) : v.hasDistinctKeys = true := by
  obtain ⟨tokens, -, h⟩ := Decode.bind_eq_ok_iff.mp h
  obtain ⟨node, -, h⟩ := Decode.bind_eq_ok_iff.mp h
  cases node with
  | none =>
    cases h
    rfl
  | some node =>
    obtain ⟨⟨l, names⟩, -, h⟩ := Decode.bind_eq_ok_iff.mp h
    obtain ⟨⟨w, left⟩, hw, h⟩ := Decode.bind_eq_ok_iff.mp h
    cases h
    exact hasDistinctKeys_of_ofLink hw

end StreamDispatch.Yaml.Value
