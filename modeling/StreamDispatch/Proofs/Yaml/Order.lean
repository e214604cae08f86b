import StreamDispatch.Proofs.Yaml.Tree

set_option autoImplicit false

/-! # The order of entries

Two trees are alike if they differ in nothing but the order of entries within mappings (`Alike`).
A text may stand as a key with tags on it, and decoding looks through them, while an overlay does
not. So keys are told apart by their addresses here: the text together with the tags on it. What a
mapping has at an address does not depend on the order of its entries, as no key stands in it twice,
and it is known of an overlay from the two mappings of which it consists. -/

namespace StreamDispatch.Yaml.Value

variable {v w key : Value} {name : String} {entries entries' upper : List (Value × Value)}
  {p : List String × String}

/-! ## Addresses -/

/-- The text that a key is, with the tags on it. -/
def address : Value → Option (List String × String)
  | .text s => some ([], s)
  | .tagged tag v => v.address.map fun p => (bareTag tag :: p.1, p.2)
  | _ => none

@[simp] theorem address_text : (text name).address = some ([], name) := rfl

/-- Decoding sees the text of an address and not its tags. -/
theorem shape_eq_text_iff : ∀ {v : Value},
    v.shape = .text name ↔ ∃ tags, v.address = some (tags, name)
  | .text s => by simp [shape, address]
  | .tagged tag v => by
    rw [shape, shape_eq_text_iff]
    simp [address]
  | .null | .bool _ | .integer _ | .float _ | .sequence _ | .mapping _ => by simp [shape, address]

theorem address_eq_text_iff : v.address = some ([], name) ↔ v = .text name := by
  cases v <;> simp [address]

/-- A key that has an address is the same as those that have the same one, and no others. -/
theorem same_iff_of_address : ∀ {v w : Value} {p : List String × String}, v.address = some p →
    ((v.same w = true ↔ w.address = some p) ∧ (w.same v = true ↔ w.address = some p))
  | .text s, w, p, h => by
    cases h
    rw [text_same_iff, same_text_iff, address_eq_text_iff]
    exact ⟨.rfl, .rfl⟩
  | .tagged tag v, w, p, h => by
    obtain ⟨⟨tags, s⟩, hq, rfl⟩ := Option.map_eq_some_iff.mp h
    cases w with
    | tagged tag' w =>
      obtain ⟨hleft, hright⟩ := same_iff_of_address (w := w) hq
      have haddress : (tagged tag' w).address = some (bareTag tag :: tags, s) ↔
          bareTag tag' = bareTag tag ∧ w.address = some (tags, s) := by
        rw [address, Option.map_eq_some_iff]
        constructor
        · rintro ⟨⟨tags', s'⟩, hw, heq⟩
          obtain ⟨hcons, rfl⟩ := Prod.mk.inj heq
          obtain ⟨htag, rfl⟩ := List.cons.inj hcons
          exact ⟨htag, hw⟩
        · rintro ⟨htag, hw⟩
          exact ⟨_, hw, by rw [htag]⟩
      rw [same, same, Bool.and_eq_true, Bool.and_eq_true, beq_iff_eq, beq_iff_eq, hleft, hright,
        haddress]
      exact ⟨and_congr_left fun _ => eq_comm, .rfl⟩
    | _ => simp [same, address]

/-! ## What stands at an address -/

/-- The value of the first key with an address. -/
def at? (p : List String × String) : List (Value × Value) → Option Value
  | [] => none
  | (k, v) :: rest => if k.address = some p then some v else at? p rest

/-- Whether every key has an address. -/
def AreAddressed (entries : List (Value × Value)) : Prop :=
  ∀ x ∈ entries, x.1.address.isSome = true

/-- No two keys have the same address. -/
def Apart (entries : List (Value × Value)) : Prop :=
  entries.Pairwise fun x y => ∀ p, x.1.address = some p → y.1.address ≠ some p

theorem at?_text (name : String) (entries : List (Value × Value)) :
    at? ([], name) entries = lookup (.text name) entries := by
  induction entries with
  | nil => rfl
  | cons x rest ih =>
    obtain ⟨k, v⟩ := x
    by_cases hk : k = .text name
    · simp [at?, lookup, hk]
    · rw [lookup_cons_of_ne hk, at?, if_neg (mt address_eq_text_iff.mp hk), ih]

theorem at?_eq_none_iff : at? p entries = none ↔ ∀ x ∈ entries, x.1.address ≠ some p := by
  induction entries with
  | nil => simp [at?]
  | cons x rest ih =>
    obtain ⟨k, v⟩ := x
    by_cases hk : k.address = some p <;> simp [at?, hk, ih]

theorem Apart.at?_eq_some_iff (h : Apart entries) :
    at? p entries = some v ↔ ∃ k, k.address = some p ∧ (k, v) ∈ entries := by
  induction entries with
  | nil => simp [at?]
  | cons x rest ih =>
    obtain ⟨k, w⟩ := x
    obtain ⟨hhead, hrest⟩ := List.pairwise_cons.mp h
    by_cases hk : k.address = some p
    · rw [at?, if_pos hk]
      constructor
      · intro hw
        cases hw
        exact ⟨k, hk, List.mem_cons_self⟩
      · rintro ⟨k', hk', hmem⟩
        rcases List.mem_cons.mp hmem with heq | hmem
        · cases heq
          rfl
        · exact absurd hk' (hhead _ hmem p hk)
    · rw [at?, if_neg hk, ih hrest]
      refine exists_congr fun k' => and_congr_right fun hk' => ?_
      have hne : (k', v) ≠ (k, w) := fun heq => hk (by cases heq; exact hk')
      simp [hne]

theorem apart_of_areDistinct (h : areDistinct entries = true) : Apart entries := by
  induction entries with
  | nil => exact .nil
  | cons x rest ih =>
    obtain ⟨k, v⟩ := x
    obtain ⟨hhead, -, -, hrest⟩ := areDistinct_cons.mp h
    refine List.pairwise_cons.mpr ⟨fun y hy p hk hy' => ?_, ih hrest⟩
    have hsame := hhead y hy
    rw [(same_iff_of_address hk).2.mpr hy'] at hsame
    cases hsame

/-! ## Overlays -/

theorem at?_alterEntry {added : Value} {change : Value → Value} :
    at? p (alterEntry key added change entries)
      = if key.address = some p then some ((at? p entries).elim added change)
        else at? p entries := by
  induction entries with
  | nil => simp [alterEntry, at?]
  | cons x rest ih =>
    obtain ⟨k, v⟩ := x
    by_cases hk : k.address = some p
    · by_cases hkey : key.address = some p
      · simp [alterEntry, (same_iff_of_address hkey).1.mpr hk, at?, hk, hkey]
      · have hsame : key.same k = false :=
          Bool.eq_false_iff.mpr fun h => hkey ((same_iff_of_address hk).2.mp h)
        simp [alterEntry, hsame, at?, hk, hkey]
    · by_cases hsame : key.same k = true
      · have hkey : key.address ≠ some p := fun hkey => hk ((same_iff_of_address hkey).1.mp hsame)
        simp [alterEntry, hsame, at?, hk, hkey]
      · simp [alterEntry, hsame, at?, hk, ih]

/-- What stands at an address after an overlay. -/
theorem at?_overlayEntries (hupper : Apart upper) :
    at? p (overlayEntries entries upper)
      = match at? p upper with
        | none => at? p entries
        | some v => some ((at? p entries).elim v fun old => overlay old v) := by
  induction upper generalizing entries with
  | nil => rfl
  | cons x rest ih =>
    obtain ⟨k, v⟩ := x
    obtain ⟨hhead, hrest⟩ := List.pairwise_cons.mp hupper
    rw [overlayEntries, ih hrest, at?_alterEntry]
    by_cases hk : k.address = some p
    · have hnone : at? p rest = none := at?_eq_none_iff.mpr fun y hy => hhead y hy p hk
      simp [hnone, at?, hk]
    · simp [at?, hk]

theorem areAddressed_cons {x : Value × Value} :
    AreAddressed (x :: entries) ↔ x.1.address.isSome = true ∧ AreAddressed entries :=
  List.forall_mem_cons

theorem areAddressed_alterEntry {added : Value} {change : Value → Value} :
    AreAddressed (alterEntry key added change entries) ↔
      key.address.isSome = true ∧ AreAddressed entries := by
  induction entries with
  | nil => simp [alterEntry, AreAddressed]
  | cons x rest ih =>
    obtain ⟨k, v⟩ := x
    rw [alterEntry]
    split
    · next hsame =>
      -- The key that is there has an address, and so has the one that is the same.
      rw [areAddressed_cons, areAddressed_cons]
      refine ⟨fun h => ⟨?_, h⟩, And.right⟩
      obtain ⟨q, hq⟩ := Option.isSome_iff_exists.mp h.1
      rw [(same_iff_of_address hq).2.mp hsame]
      rfl
    · rw [areAddressed_cons, areAddressed_cons, ih, and_left_comm]

theorem areAddressed_overlayEntries :
    AreAddressed (overlayEntries entries upper) ↔ AreAddressed entries ∧ AreAddressed upper := by
  induction upper generalizing entries with
  | nil => simp [overlayEntries, AreAddressed]
  | cons x rest ih =>
    obtain ⟨k, v⟩ := x
    rw [overlayEntries, ih, areAddressed_alterEntry, areAddressed_cons, and_right_comm, and_comm,
      ← and_assoc]

theorem Apart.alterEntry (h : Apart entries) {added : Value} {change : Value → Value} :
    Apart (alterEntry key added change entries) := by
  induction entries with
  | nil => exact List.pairwise_singleton _ _
  | cons x rest ih =>
    obtain ⟨k, v⟩ := x
    obtain ⟨hhead, hrest⟩ := List.pairwise_cons.mp h
    rw [Value.alterEntry]
    split
    · exact List.pairwise_cons.mpr ⟨hhead, hrest⟩
    · next hsame =>
      refine List.pairwise_cons.mpr ⟨fun y hy p hk hy' => ?_, ih hrest⟩
      rcases mem_alterEntry hy with heq | ⟨z, hz, heq⟩
      · exact hsame ((same_iff_of_address hk).2.mpr (heq ▸ hy'))
      · exact hhead z hz p hk (heq ▸ hy')

theorem Apart.overlayEntries (h : Apart entries) : Apart (overlayEntries entries upper) := by
  induction upper generalizing entries with
  | nil => exact h
  | cons x rest ih =>
    rw [Value.overlayEntries]
    exact ih h.alterEntry

/-! ## Trees that differ in the order of entries -/

/-- Two trees that differ in nothing but the order of entries within mappings. -/
inductive Alike : Value → Value → Prop
  | refl (v : Value) : Alike v v
  | sequence {items items' : List Value} (h : List.Forall₂ Alike items items') :
    Alike (.sequence items) (.sequence items')
  /-- After the entries have been put in another order, keys and values are alike one by one. -/
  | mapping {entries reordered entries' : List (Value × Value)} (hp : entries.Perm reordered)
    (keys : List.Forall₂ Alike (reordered.map Prod.fst) (entries'.map Prod.fst))
    (values : List.Forall₂ Alike (reordered.map Prod.snd) (entries'.map Prod.snd)) :
    Alike (.mapping entries) (.mapping entries')
  | tagged (tag : String) {v w : Value} (h : Alike v w) : Alike (.tagged tag v) (.tagged tag w)

namespace Alike

theorem address_eq : ∀ {v w : Value}, Alike v w → v.address = w.address
  | .tagged tag v, w, h => by
    cases h with
    | refl => rfl
    | tagged tag h => rw [address, address, address_eq h]
  | .null, _, h | .bool _, _, h | .integer _, _, h | .float _, _, h | .text _, _, h => by
    cases h
    rfl
  | .sequence _, _, h | .mapping _, _, h => by
    cases h <;> rfl

protected theorem untagged : ∀ {v w : Value}, Alike v w → Alike v.untagged w.untagged
  | .tagged tag v, w, h => by
    cases h with
    | refl => exact .refl _
    | tagged tag h =>
      have hinner := Alike.untagged h
      exact hinner
  | .null, _, h | .bool _, _, h | .integer _, _, h | .float _, _, h | .text _, _, h => by
    cases h
    exact .refl _
  | .sequence _, _, h => by
    cases h with
    | refl => exact .refl _
    | sequence h => exact .sequence h
  | .mapping _, _, h => by
    cases h with
    | refl => exact .refl _
    | mapping hp keys values => exact .mapping hp keys values

/-- Every entry of one list stands in the other as well, with a key and a value that are alike. -/
theorem exists_mem (keys : List.Forall₂ Alike (entries.map Prod.fst) (entries'.map Prod.fst))
    (values : List.Forall₂ Alike (entries.map Prod.snd) (entries'.map Prod.snd)) :
    (∀ x ∈ entries, ∃ y ∈ entries', Alike x.1 y.1 ∧ Alike x.2 y.2)
      ∧ ∀ y ∈ entries', ∃ x ∈ entries, Alike x.1 y.1 ∧ Alike x.2 y.2 := by
  induction entries generalizing entries' with
  | nil =>
    cases entries' with
    | nil => exact ⟨nofun, nofun⟩
    | cons y rest' => cases keys
  | cons x rest ih =>
    cases entries' with
    | nil => cases keys
    | cons y rest' =>
      obtain ⟨hkey, hkeys⟩ := List.forall₂_cons.mp keys
      obtain ⟨hvalue, hvalues⟩ := List.forall₂_cons.mp values
      obtain ⟨hto, hfrom⟩ := ih hkeys hvalues
      constructor
      · refine List.forall_mem_cons.mpr ⟨⟨y, List.mem_cons_self, hkey, hvalue⟩, fun z hz => ?_⟩
        obtain ⟨z', hz', h⟩ := hto z hz
        exact ⟨z', List.mem_cons_of_mem _ hz', h⟩
      · refine List.forall_mem_cons.mpr ⟨⟨x, List.mem_cons_self, hkey, hvalue⟩, fun z hz => ?_⟩
        obtain ⟨z', hz', h⟩ := hfrom z hz
        exact ⟨z', List.mem_cons_of_mem _ hz', h⟩

/-- What is like a mapping is a mapping with entries that are alike, in some order. -/
theorem exists_entries (h : Alike (.mapping entries) w) : ∃ entries', w = .mapping entries'
    ∧ (∀ x ∈ entries, ∃ y ∈ entries', Alike x.1 y.1 ∧ Alike x.2 y.2)
    ∧ ∀ y ∈ entries', ∃ x ∈ entries, Alike x.1 y.1 ∧ Alike x.2 y.2 := by
  cases h with
  | refl =>
    have hself (x : Value × Value) (hx : x ∈ entries) :
        ∃ y ∈ entries, Alike x.1 y.1 ∧ Alike x.2 y.2 := ⟨x, hx, .refl _, .refl _⟩
    exact ⟨entries, rfl, hself, fun y hy => ⟨y, hy, .refl _, .refl _⟩⟩
  | mapping hp keys values =>
    obtain ⟨hto, hfrom⟩ := exists_mem keys values
    refine ⟨_, rfl, fun x hx => hto x (hp.mem_iff.mp hx), fun y hy => ?_⟩
    obtain ⟨x, hx, h⟩ := hfrom y hy
    exact ⟨x, hp.mem_iff.mpr hx, h⟩

end Alike

/-- Entries that have the same addresses, and related values at each of them. -/
structure Agree (R : Value → Value → Prop) (entries entries' : List (Value × Value)) : Prop where
  apart : Apart entries
  apart' : Apart entries'
  addressed_iff : AreAddressed entries ↔ AreAddressed entries'
  at?_rel : ∀ p, Option.Rel R (at? p entries) (at? p entries')

/-- Documents that are alike. In neither of them has a mapping the same key twice. -/
structure Akin (v w : Value) : Prop where
  alike : Alike v w
  left : v.hasDistinctKeys = true
  right : w.hasDistinctKeys = true

theorem Akin.agree (h : Akin (.mapping entries) (.mapping entries')) :
    Agree Akin entries entries' := by
  have hleft : areDistinct entries = true := h.left
  have hright : areDistinct entries' = true := h.right
  have hapart := apart_of_areDistinct hleft
  have hapart' := apart_of_areDistinct hright
  obtain ⟨_, ⟨⟩, hto, hfrom⟩ := h.alike.exists_entries
  refine ⟨hapart, hapart', ⟨fun hall y hy => ?_, fun hall x hx => ?_⟩, fun p => ?_⟩
  · obtain ⟨x, hx, hkey, -⟩ := hfrom y hy
    rw [← hkey.address_eq]
    exact hall x hx
  · obtain ⟨y, hy, hkey, -⟩ := hto x hx
    rw [hkey.address_eq]
    exact hall y hy
  · cases hat : at? p entries with
    | some v =>
      obtain ⟨k, hk, hmem⟩ := hapart.at?_eq_some_iff.mp hat
      obtain ⟨⟨k', v'⟩, hmem', hkey, hvalue⟩ := hto _ hmem
      have hat' : at? p entries' = some v' :=
        hapart'.at?_eq_some_iff.mpr ⟨k', hkey.address_eq ▸ hk, hmem'⟩
      rw [hat']
      exact .some ⟨hvalue, hasDistinctKeys_of_mem hleft hmem, hasDistinctKeys_of_mem hright hmem'⟩
    | none =>
      have hat' : at? p entries' = none := by
        refine at?_eq_none_iff.mpr fun y hy hk => ?_
        obtain ⟨x, hx, hkey, -⟩ := hfrom y hy
        exact at?_eq_none_iff.mp hat x hx (hkey.address_eq.trans hk)
      rw [hat']
      exact .none

/-! ## Overlays of documents that are alike -/

/-- Values that are alike, or that consist of an upper and a lower one that are. -/
inductive Matched : Value → Value → Prop
  | akin {v w : Value} (h : Akin v w) : Matched v w
  | overlay {v w u u' : Value} (h : Akin v w) (hu : Akin u u') :
    Matched (v.overlay u) (w.overlay u')

theorem rel_overlay {low low' high high' : Option Value} :
    Option.Rel Akin low low' → Option.Rel Akin high high' → Option.Rel Matched
      (match high with
        | none => low
        | some v => some (low.elim v fun old => old.overlay v))
      (match high' with
        | none => low'
        | some v => some (low'.elim v fun old => old.overlay v)) := by
  intro hlow hhigh
  cases hhigh with
  | none =>
    cases hlow with
    | none => exact .none
    | some h => exact .some (.akin h)
  | some hv =>
    cases hlow with
    | none => exact .some (.akin hv)
    | some h => exact .some (.overlay h hv)

/-- Mappings that are alike agree when they are laid over each other. -/
theorem agree_overlayEntries {upper' : List (Value × Value)}
    (h : Akin (.mapping entries) (.mapping entries'))
    (hu : Akin (.mapping upper) (.mapping upper')) :
    Agree Matched (overlayEntries entries upper) (overlayEntries entries' upper') := by
  have hagree := h.agree
  have hupper := hu.agree
  refine ⟨hagree.apart.overlayEntries, hagree.apart'.overlayEntries, ?_, fun p => ?_⟩
  · rw [areAddressed_overlayEntries, areAddressed_overlayEntries, hagree.addressed_iff,
      hupper.addressed_iff]
  · rw [at?_overlayEntries hupper.apart, at?_overlayEntries hupper.apart']
    exact rel_overlay (hagree.at?_rel p) (hupper.at?_rel p)

end StreamDispatch.Yaml.Value
