import StreamDispatch.Proofs.Yaml.Sameness

set_option autoImplicit false

/-! # What an overlay has where

When entries are laid over others, the lower ones keep their place and their keys, each with what is
laid over its value, and the upper ones with new keys follow in their own order
(`overlayEntries_eq`). From that it is known what an overlay has at every path of keys
(`overlay_exact`): the upper tree decides below the first place on the path where it has something
and one of the two trees has no mapping; otherwise the lower one decides where the upper one has
nothing, and where both have mappings their keys are put together. -/

namespace StreamDispatch.Yaml.Value

variable {v w k key low high : Value} {entries upper upper' : List (Value × Value)}

/-! ## Keys that are told apart -/

/-- No key stands there twice, in whichever form, and no mapping in a key has a key twice. -/
structure Keyed (entries : List (Value × Value)) : Prop where
  apart : entries.Pairwise fun x y => y.1.same x.1 = false
  keys : ∀ x ∈ entries, x.1.hasDistinctKeys = true

theorem keyed_of_areDistinct (h : areDistinct entries = true) : Keyed entries := by
  obtain ⟨hapart, hparts⟩ := areDistinct_iff.mp h
  exact ⟨hapart, fun x hx => (hparts x hx).1⟩

theorem Keyed.tail {x : Value × Value} (h : Keyed (x :: entries)) : Keyed entries :=
  ⟨(List.pairwise_cons.mp h.apart).2, (List.forall_mem_cons.mp h.keys).2⟩

theorem lookup_cons : lookup key ((k, v) :: entries)
    = if key.same k then some v else lookup key entries :=
  rfl

theorem lookup_eq_none_iff_forall :
    lookup key entries = none ↔ ∀ x ∈ entries, key.same x.1 = false := by
  induction entries with
  | nil => simp [lookup]
  | cons x rest ih =>
    obtain ⟨k, v⟩ := x
    rw [lookup_cons, List.forall_mem_cons, ← ih]
    cases key.same k <;> simp

theorem lookup_append :
    lookup key (entries ++ upper) = (lookup key entries).or (lookup key upper) := by
  induction entries with
  | nil => rfl
  | cons x rest ih =>
    obtain ⟨k, v⟩ := x
    rw [List.cons_append, lookup_cons, lookup_cons, ih]
    cases key.same k <;> rfl

theorem exists_mem_of_lookup (h : lookup key entries = some v) :
    ∃ k, (k, v) ∈ entries ∧ key.same k = true := by
  induction entries with
  | nil => cases h
  | cons x rest ih =>
    obtain ⟨k, w⟩ := x
    rw [lookup_cons] at h
    split at h
    · next hsame =>
      cases h
      exact ⟨k, List.mem_cons_self, hsame⟩
    · obtain ⟨k', hmem, hsame⟩ := ih h
      exact ⟨k', List.mem_cons_of_mem _ hmem, hsame⟩

/-- Sameness is told alike from both sides, and by keys that are the same. -/
theorem same_congr (hkey : key.hasDistinctKeys = true) (h : key.same k = true) :
    key.same v = k.same v := by
  rw [Bool.eq_iff_iff]
  exact ⟨same_trans (same_symm hkey h), same_trans h⟩

theorem same_comm (hv : v.hasDistinctKeys = true) (hw : w.hasDistinctKeys = true) :
    v.same w = w.same v :=
  Bool.eq_iff_iff.mpr ⟨same_symm hv, same_symm hw⟩

/-- Keys that are the same find the same entry. -/
theorem lookup_congr (hkey : key.hasDistinctKeys = true) (h : key.same k = true) :
    lookup key entries = lookup k entries := by
  induction entries with
  | nil => rfl
  | cons x rest ih =>
    obtain ⟨k', v⟩ := x
    rw [lookup_cons, lookup_cons, same_congr hkey h, ih]

/-- No later entry has the key of the first one. -/
theorem Keyed.lookup_eq_none (h : Keyed ((k, v) :: entries)) : lookup k entries = none := by
  refine lookup_eq_none_iff_forall.mpr fun x hx => ?_
  rw [same_comm (h.keys _ List.mem_cons_self) (h.keys x (List.mem_cons_of_mem _ hx))]
  exact (List.pairwise_cons.mp h.apart).1 x hx

/-- A key finds its own entry. -/
theorem Keyed.lookup_of_mem (h : Keyed entries) (hmem : (k, v) ∈ entries) :
    lookup k entries = some v := by
  induction entries with
  | nil => cases hmem
  | cons x rest ih =>
    obtain ⟨k', w⟩ := x
    rw [lookup_cons]
    rcases List.mem_cons.mp hmem with heq | hmem
    · cases heq
      rw [if_pos (same_refl k)]
    · have hne : k.same k' = false := (List.pairwise_cons.mp h.apart).1 _ hmem
      rw [hne]
      exact ih h.tail hmem

/-! ## One entry laid over others -/

theorem alterEntry_of_none {added : Value} {change : Value → Value}
    (h : lookup key entries = none) :
    alterEntry key added change entries = entries ++ [(key, added)] := by
  induction entries with
  | nil => rfl
  | cons x rest ih =>
    obtain ⟨k, v⟩ := x
    obtain ⟨hk, hrest⟩ := List.forall_mem_cons.mp (lookup_eq_none_iff_forall.mp h)
    rw [alterEntry, if_neg (Bool.eq_false_iff.mp hk), ih (lookup_eq_none_iff_forall.mpr hrest)]
    rfl

/-- What becomes of an entry when one with a certain key is changed. -/
def altered (key : Value) (change : Value → Value) (e : Value × Value) : Value × Value :=
  (e.1, if key.same e.1 then change e.2 else e.2)

theorem alterEntry_of_some {added : Value} {change : Value → Value} (h : Keyed entries)
    (hkey : key.hasDistinctKeys = true) (hsome : lookup key entries = some v) :
    alterEntry key added change entries = entries.map (altered key change) := by
  have hkept {es : List (Value × Value)} (hnone : lookup key es = none) :
      es.map (altered key change) = es := by
    refine (List.map_congr_left fun x hx => ?_).trans (List.map_id es)
    rw [altered, lookup_eq_none_iff_forall.mp hnone x hx]
    rfl
  induction entries with
  | nil => cases hsome
  | cons x rest ih =>
    obtain ⟨k, w⟩ := x
    rw [lookup_cons] at hsome
    rw [alterEntry, List.map_cons, altered]
    cases hsame : key.same k with
    | true =>
      have hnone : lookup key rest = none := (lookup_congr hkey hsame).trans h.lookup_eq_none
      rw [hkept hnone]
      rfl
    | false =>
      rw [hsame] at hsome
      rw [ih h.tail hsome]
      rfl

theorem keys_map_altered {change : Value → Value} :
    (entries.map (altered key change)).map Prod.fst = entries.map Prod.fst := by
  rw [List.map_map]
  rfl

/-! ## Entries laid over others -/

/-- A lower entry, with what is laid over its value. -/
def laid (upper : List (Value × Value)) (e : Value × Value) : Value × Value :=
  (e.1, (lookup e.1 upper).elim e.2 fun v => e.2.overlay v)

theorem lookup_isNone_congr (h : entries.map Prod.fst = upper.map Prod.fst) :
    (lookup key entries).isNone = (lookup key upper).isNone := by
  rw [Bool.eq_iff_iff, Option.isNone_iff_eq_none, Option.isNone_iff_eq_none,
    lookup_eq_none_iff_forall, lookup_eq_none_iff_forall]
  have hkeys (es : List (Value × Value)) :
      (∀ x ∈ es, key.same x.1 = false) ↔ ∀ k ∈ es.map Prod.fst, key.same k = false := by
    simp
  rw [hkeys, hkeys, h]

theorem Keyed.map_altered {change : Value → Value} (h : Keyed entries) :
    Keyed (entries.map (altered key change)) := by
  refine ⟨List.pairwise_map.mpr h.apart, fun x hx => ?_⟩
  obtain ⟨y, hy, rfl⟩ := List.mem_map.mp hx
  exact h.keys y hy

theorem Keyed.concat (h : Keyed entries) (hk : k.hasDistinctKeys = true)
    (hnone : lookup k entries = none) : Keyed (entries ++ [(k, v)]) := by
  refine ⟨?_, List.forall_mem_append.mpr ⟨h.keys, fun x hx => ?_⟩⟩
  · refine List.pairwise_append.mpr ⟨h.apart, List.pairwise_singleton _ _, fun x hx y hy => ?_⟩
    rw [List.mem_singleton.mp hy]
    exact lookup_eq_none_iff_forall.mp hnone x hx
  · rw [List.mem_singleton.mp hx]
    exact hk

/-- An overlay of entries: the lower ones in their places, then the upper ones with new keys. -/
theorem overlayEntries_eq (h : Keyed entries) (hupper : Keyed upper) :
    overlayEntries entries upper
      = entries.map (laid upper) ++ upper.filter fun e => (lookup e.1 entries).isNone := by
  induction upper generalizing entries with
  | nil =>
    have hkept : entries.map (laid []) = entries := List.map_id _
    rw [overlayEntries, hkept, List.filter_nil, List.append_nil]
  | cons x rest ih =>
    obtain ⟨k, v⟩ := x
    have hk := hupper.keys _ List.mem_cons_self
    have hothers : ∀ e ∈ rest, e.1.same k = false := (List.pairwise_cons.mp hupper.apart).1
    rw [overlayEntries]
    cases hfound : lookup k entries with
    | some w =>
      rw [alterEntry_of_some h hk hfound, ih h.map_altered hupper.tail, List.map_map,
        List.filter_cons_of_neg (by simp [hfound])]
      congr 1
      · refine List.map_congr_left fun e he => ?_
        rw [Function.comp_apply, altered, laid, laid, lookup_cons, same_comm (h.keys e he) hk]
        cases hsame : k.same e.1 with
        | true =>
          -- Nothing else is laid over the entry with the key.
          have hnone : lookup e.1 rest = none :=
            (lookup_congr hk hsame).symm.trans hupper.lookup_eq_none
          simp [hnone]
        | false => rfl
      · exact List.filter_congr fun e _ => lookup_isNone_congr keys_map_altered
    | none =>
      rw [alterEntry_of_none hfound, ih (h.concat hk hfound) hupper.tail,
        List.filter_cons_of_pos (by simp [hfound]), List.map_append, List.append_assoc]
      congr 1
      · refine List.map_congr_left fun e he => ?_
        have hne : e.1.same k = false := by
          rw [same_comm (h.keys e he) hk]
          exact lookup_eq_none_iff_forall.mp hfound e he
        rw [laid, laid, lookup_cons, hne]
        rfl
      · have hnew : laid rest (k, v) = (k, v) := by
          rw [laid, hupper.lookup_eq_none]
          rfl
        rw [List.map_singleton, hnew, List.singleton_append]
        refine congrArg _ (List.filter_congr fun e he => ?_)
        rw [lookup_append, lookup_cons, hothers e he]
        simp [lookup]

/-- What an overlay has under a key. -/
theorem lookup_overlayEntries_of_keyed (h : Keyed entries) (hupper : Keyed upper)
    (hkey : key.hasDistinctKeys = true) : lookup key (overlayEntries entries upper)
      = match lookup key upper with
        | none => lookup key entries
        | some v => some ((lookup key entries).elim v fun old => old.overlay v) := by
  have hlower : lookup key (entries.map (laid upper))
      = (lookup key entries).map fun old => (lookup key upper).elim old fun v => old.overlay v := by
    induction entries with
    | nil => rfl
    | cons x rest ih =>
      obtain ⟨k, v⟩ := x
      rw [List.map_cons, laid, lookup_cons, lookup_cons, ih h.tail]
      split
      · next hsame => rw [lookup_congr hkey hsame, Option.map_some]
      · rfl
  have hnew : lookup key (upper.filter fun e => (lookup e.1 entries).isNone)
      = if (lookup key entries).isNone then lookup key upper else none := by
    clear hlower hupper
    induction upper with
    | nil => simp [lookup]
    | cons x rest ih =>
      obtain ⟨k, v⟩ := x
      rw [List.filter_cons, lookup_cons]
      cases hsame : key.same k with
      | true =>
        have hlower : lookup key entries = lookup k entries := lookup_congr hkey hsame
        rw [← hlower]
        cases hfound : lookup key entries with
        | none => simp [lookup_cons, hsame]
        | some w => simp [ih, hfound]
      | false =>
        split
        · rw [lookup_cons, hsame]
          exact ih
        · exact ih
  rw [overlayEntries_eq h hupper, lookup_append, hlower, hnew]
  cases lookup key upper <;> cases lookup key entries <;> rfl

/-! ## Paths -/

/-- What a tree has at a path of keys. A key leads on from mappings only. -/
def follow? (v : Value) : List Value → Option Value
  | [] => some v
  | key :: path =>
    match v with
    | .mapping entries => (lookup key entries).bind fun w => w.follow? path
    | _ => none

/-- Whether a tree has a mapping at a path. -/
def HasMappingAt (v : Value) (path : List Value) : Prop :=
  ∃ entries, v.follow? path = some (.mapping entries)

/-- At a path the upper tree has a value, and one of the two has no mapping. -/
def Supersedes (high low : Value) (path : List Value) : Prop :=
  (high.follow? path).isSome ∧ ¬(high.HasMappingAt path ∧ low.HasMappingAt path)

/-- What a tree made of a lower and an upper one has at a path. -/
inductive IsOverlaidAt (low high made : Value) (path : List Value) : Prop
  /-- From the first place on where the upper tree supersedes, it decides. -/
  | upper (front back : List Value) (heq : path = front ++ back) (here : Supersedes high low front)
      (first : ∀ shorter, shorter <+: front → Supersedes high low shorter → shorter = front)
      (decides : ∀ rest, made.follow? (front ++ rest) = high.follow? (front ++ rest))
  /-- Where the upper tree has nothing, the lower one decides. -/
  | lower (never : ∀ front, front <+: path → ¬Supersedes high low front)
      (nothing : high.follow? path = none) (decides : made.follow? path = low.follow? path)
  /-- Where both have mappings, the new keys of the upper one follow the keys of the lower one. -/
  | both (never : ∀ front, front <+: path → ¬Supersedes high low front)
      (lowers uppers entries : List (Value × Value))
      (hlow : low.follow? path = some (.mapping lowers))
      (hhigh : high.follow? path = some (.mapping uppers))
      (hmade : made.follow? path = some (.mapping entries))
      (keys : entries.map Prod.fst = lowers.map Prod.fst
        ++ (uppers.map Prod.fst).filter fun k => (lookup k lowers).isNone)

theorem follow?_cons {path : List Value} (h : lookup key entries = some v) :
    (mapping entries).follow? (key :: path) = v.follow? path := by
  rw [follow?, h, Option.bind_some]

theorem follow?_cons_of_none {path : List Value} (h : lookup key entries = none) :
    (mapping entries).follow? (key :: path) = none := by
  rw [follow?, h, Option.bind_none]

theorem not_supersedes_nil : ¬Supersedes (.mapping upper) (.mapping entries) [] :=
  fun h => h.2 ⟨⟨upper, rfl⟩, ⟨entries, rfl⟩⟩

theorem supersedes_cons {path : List Value} (hlow : lookup key entries = some low)
    (hhigh : lookup key upper = some high) :
    Supersedes (.mapping upper) (.mapping entries) (key :: path) ↔ Supersedes high low path := by
  rw [Supersedes, HasMappingAt, HasMappingAt, follow?_cons hlow, follow?_cons hhigh]
  rfl

/-- On the way to a place there is nothing but the tree itself and what is on the way from below its
first key. -/
theorem prefix_cons_cases {front path : List Value} (h : front <+: key :: path) :
    front = [] ∨ ∃ front', front = key :: front' ∧ front' <+: path := by
  cases front with
  | nil => exact .inl rfl
  | cons k front' =>
    obtain ⟨rfl, hfront⟩ := List.cons_prefix_cons.mp h
    exact .inr ⟨front', rfl, hfront⟩

/-- Below a key of both trees it is as it is between what they have under the key. -/
theorem IsOverlaidAt.cons {made : Value} {path : List Value}
    (hlow : lookup key entries = some low) (hhigh : lookup key upper = some high)
    (hmade : lookup key upper' = some made) (h : IsOverlaidAt low high made path) :
    IsOverlaidAt (.mapping entries) (.mapping upper) (.mapping upper') (key :: path) := by
  have hnever (never : ∀ front, front <+: path → ¬Supersedes high low front) :
      ∀ front, front <+: key :: path
        → ¬Supersedes (.mapping upper) (.mapping entries) front := by
    intro front hfront
    rcases prefix_cons_cases hfront with rfl | ⟨front', rfl, hfront'⟩
    · exact not_supersedes_nil
    · rw [supersedes_cons hlow hhigh]
      exact never front' hfront'
  cases h with
  | upper front back heq here first decides =>
    refine .upper (key :: front) back (by rw [heq]; rfl) ((supersedes_cons hlow hhigh).mpr here)
      (fun shorter hshorter hsup => ?_) fun rest => ?_
    · rcases prefix_cons_cases hshorter with rfl | ⟨shorter', rfl, hshorter'⟩
      · exact absurd hsup not_supersedes_nil
      · rw [first shorter' hshorter' ((supersedes_cons hlow hhigh).mp hsup)]
    · rw [List.cons_append, follow?_cons hmade, follow?_cons hhigh, decides]
  | lower never nothing decides =>
    refine .lower (hnever never) ?_ ?_
    · rw [follow?_cons hhigh, nothing]
    · rw [follow?_cons hmade, follow?_cons hlow, decides]
  | both never lowers uppers made hl hh hm keys =>
    refine .both (hnever never) lowers uppers made ?_ ?_ ?_ keys
    · rw [follow?_cons hlow, hl]
    · rw [follow?_cons hhigh, hh]
    · rw [follow?_cons hmade, hm]

theorem hasDistinctKeys_of_lookup (h : areDistinct entries = true)
    (hfound : lookup key entries = some v) : v.hasDistinctKeys = true := by
  obtain ⟨k, hmem, -⟩ := exists_mem_of_lookup hfound
  exact hasDistinctKeys_of_mem h hmem

/-- Where one of the two trees is no mapping the upper one decides about everything. -/
theorem isOverlaidAt_of_not_mappings (h : ¬(low.IsMapping ∧ high.IsMapping)) (path : List Value) :
    IsOverlaidAt low high (low.overlay high) path := by
  rw [overlay_eq_upper h]
  refine .upper [] path rfl ⟨rfl, fun ⟨⟨es, hhigh⟩, ⟨es', hlow⟩⟩ => ?_⟩
    (fun shorter hshorter _ => List.prefix_nil.mp hshorter) fun _ => rfl
  exact h ⟨⟨es', Option.some.inj hlow⟩, ⟨es, Option.some.inj hhigh⟩⟩

theorem isOverlaidAt_overlay (hlow : low.hasDistinctKeys = true)
    (hhigh : high.hasDistinctKeys = true) {path : List Value}
    (hpath : ∀ key ∈ path, key.hasDistinctKeys = true) :
    IsOverlaidAt low high (low.overlay high) path := by
  induction path generalizing low high with
  | nil =>
    by_cases hmappings : low.IsMapping ∧ high.IsMapping
    · obtain ⟨⟨lowers, rfl⟩, ⟨uppers, rfl⟩⟩ := hmappings
      refine .both (fun front hfront => ?_) lowers uppers _ rfl rfl rfl ?_
      · rw [List.prefix_nil.mp hfront]
        exact not_supersedes_nil
      · rw [overlayEntries_eq (keyed_of_areDistinct hlow) (keyed_of_areDistinct hhigh),
          List.map_append, List.map_map, List.filter_map]
        rfl
    · exact isOverlaidAt_of_not_mappings hmappings _
  | cons key path ih =>
    by_cases hmappings : low.IsMapping ∧ high.IsMapping
    · obtain ⟨⟨lowers, rfl⟩, ⟨uppers, rfl⟩⟩ := hmappings
      rw [List.forall_mem_cons] at hpath
      have hlookup := lookup_overlayEntries_of_keyed (keyed_of_areDistinct hlow)
        (keyed_of_areDistinct hhigh) hpath.1
      cases hupper : lookup key uppers with
      | none =>
        rw [hupper] at hlookup
        have hnothing : (mapping uppers).follow? (key :: path) = none :=
          follow?_cons_of_none hupper
        refine .lower (fun front hfront => ?_) hnothing ?_
        · rcases prefix_cons_cases hfront with rfl | ⟨front', rfl, -⟩
          · exact not_supersedes_nil
          · rw [Supersedes, follow?_cons_of_none hupper]
            exact fun h => Bool.false_ne_true h.1
        · exact congrArg (fun x : Option Value => x.bind fun w => w.follow? path) hlookup
      | some v =>
        rw [hupper] at hlookup
        cases hlower : lookup key lowers with
        | none =>
          rw [hlower] at hlookup
          refine .upper [key] path rfl ⟨?_, ?_⟩ (fun shorter hshorter hsup => ?_) fun rest => ?_
          · rw [follow?_cons hupper]
            rfl
          · rintro ⟨-, es, hes⟩
            rw [follow?_cons_of_none hlower] at hes
            cases hes
          · rcases prefix_cons_cases hshorter with rfl | ⟨shorter', rfl, hshorter'⟩
            · exact absurd hsup not_supersedes_nil
            · rw [List.prefix_nil.mp hshorter']
          · exact (follow?_cons hlookup).trans (follow?_cons hupper).symm
        | some old =>
          rw [hlower] at hlookup
          have hbelow := ih (hasDistinctKeys_of_lookup hlow hlower)
            (hasDistinctKeys_of_lookup hhigh hupper) hpath.2
          exact hbelow.cons hlower hupper hlookup
    · exact isOverlaidAt_of_not_mappings hmappings _

/-! ## Overlays laid again -/

theorem alterEntry_eq_self {added : Value} {change : Value → Value}
    (hfound : lookup key entries = some v) (hkept : change v = v) :
    alterEntry key added change entries = entries := by
  induction entries with
  | nil => cases hfound
  | cons x rest ih =>
    obtain ⟨k, w⟩ := x
    rw [lookup_cons] at hfound
    rw [alterEntry]
    split
    · next hsame =>
      rw [if_pos hsame] at hfound
      rw [Option.some.inj hfound, hkept]
    · next hsame =>
      rw [if_neg hsame] at hfound
      rw [ih hfound]

/-- Entries stay as they are if nothing that is laid over them makes a difference. -/
theorem overlayEntries_eq_self
    (h : ∀ x ∈ upper, ∃ v, lookup x.1 entries = some v ∧ v.overlay x.2 = v) :
    overlayEntries entries upper = entries := by
  induction upper with
  | nil => rfl
  | cons x rest ih =>
    obtain ⟨k, w⟩ := x
    obtain ⟨⟨v, hfound, hkept⟩, hrest⟩ := List.forall_mem_cons.mp h
    rw [overlayEntries, alterEntry_eq_self hfound hkept, ih hrest]

/-- A tree laid over itself changes nothing. -/
theorem overlay_self (hv : v.hasDistinctKeys = true) : v.overlay v = v := by
  induction v using inductionOn with
  | mapping entries ih =>
    refine congrArg mapping (overlayEntries_eq_self fun x hx => ⟨x.2, ?_, ?_⟩)
    · exact (keyed_of_areDistinct hv).lookup_of_mem hx
    · exact (ih x hx).2 (hasDistinctKeys_of_mem hv hx)
  | _ => rfl

/-- Laying the same tree over another one again changes nothing more. -/
theorem overlay_overlay (hlow : low.hasDistinctKeys = true) (hhigh : high.hasDistinctKeys = true) :
    (low.overlay high).overlay high = low.overlay high := by
  induction high using inductionOn generalizing low with
  | mapping uppers ih =>
    by_cases hmapping : low.IsMapping
    · obtain ⟨lowers, rfl⟩ := hmapping
      have hkeyed := keyed_of_areDistinct hhigh
      refine congrArg mapping (overlayEntries_eq_self fun x hx => ?_)
      have hx' : x.2.hasDistinctKeys = true := hasDistinctKeys_of_mem hhigh hx
      rw [lookup_overlayEntries_of_keyed (keyed_of_areDistinct hlow) hkeyed (hkeyed.keys x hx),
        hkeyed.lookup_of_mem hx]
      refine ⟨_, rfl, ?_⟩
      cases hlower : lookup x.1 lowers with
      | none => exact overlay_self hx'
      | some old => exact (ih x hx).2 (hasDistinctKeys_of_lookup hlow hlower) hx'
    · rw [overlay_eq_upper fun h => hmapping h.1]
      exact overlay_self hhigh
  | _ => rfl

/-! ## Overlays without a key in common -/

/-- No key of one list is the same as a key of another. -/
def NoneShared (us ws : List (Value × Value)) : Prop :=
  ∀ x ∈ us, ∀ y ∈ ws, x.1.same y.1 = false

variable {us ws lowers : List (Value × Value)}

theorem NoneShared.symm (h : NoneShared us ws) (hus : Keyed us) (hws : Keyed ws) :
    NoneShared ws us := fun y hy x hx => by
  rw [same_comm (hws.keys y hy) (hus.keys x hx)]
  exact h x hx y hy

theorem NoneShared.lookup_eq_none (h : NoneShared us ws) {x : Value × Value} (hx : x ∈ us) :
    lookup x.1 ws = none :=
  lookup_eq_none_iff_forall.mpr (h x hx)

theorem Keyed.overlayEntries (h : Keyed entries)
    (hupper : ∀ x ∈ upper, x.1.hasDistinctKeys = true) : Keyed (overlayEntries entries upper) := by
  induction upper generalizing entries with
  | nil => exact h
  | cons x rest ih =>
    obtain ⟨k, v⟩ := x
    obtain ⟨hk, hrest⟩ := List.forall_mem_cons.mp hupper
    rw [Value.overlayEntries]
    refine ih ?_ hrest
    cases hfound : lookup k entries with
    | none =>
      rw [alterEntry_of_none hfound]
      exact h.concat hk hfound
    | some w =>
      rw [alterEntry_of_some h hk hfound]
      exact h.map_altered

/-- Two overlays without a key in common: what they change in the lower entries, and then what each
of them adds. -/
theorem overlayEntries_overlayEntries (h : Keyed lowers) (hus : Keyed us) (hws : Keyed ws)
    (hnone : NoneShared us ws) : overlayEntries (overlayEntries lowers us) ws
      = lowers.map (fun e => laid ws (laid us e))
        ++ us.filter (fun e => (lookup e.1 lowers).isNone)
        ++ ws.filter (fun e => (lookup e.1 lowers).isNone) := by
  rw [overlayEntries_eq (h.overlayEntries hus.keys) hws]
  congr 1
  · rw [overlayEntries_eq h hus, List.map_append, List.map_map]
    congr 1
    refine (List.map_congr_left fun x hx => ?_).trans (List.map_id _)
    rw [laid, hnone.lookup_eq_none (List.mem_filter.mp hx).1]
    rfl
  · refine List.filter_congr fun y hy => ?_
    rw [lookup_overlayEntries_of_keyed h hus (hws.keys y hy),
      (hnone.symm hus hws).lookup_eq_none hy]

theorem laid_comm (hnone : NoneShared us ws) {e : Value × Value}
    (he : e.1.hasDistinctKeys = true) : laid ws (laid us e) = laid us (laid ws e) := by
  rw [laid, laid, laid, laid]
  cases hu : lookup e.1 us with
  | none => cases lookup e.1 ws <;> rfl
  | some u =>
    cases hw : lookup e.1 ws with
    | none => rfl
    | some w =>
      -- Then the key would be the same as one of each.
      obtain ⟨k, hk, hsame⟩ := exists_mem_of_lookup hu
      obtain ⟨k', hk', hsame'⟩ := exists_mem_of_lookup hw
      have hkk : k.same k' = true := same_trans (same_symm he hsame) hsame'
      exact absurd (hnone _ hk _ hk') (by simp [hkk])

/-- Under a mapping, anything but a mapping counts as one without entries. -/
theorem exists_lowers (hlow : low.hasDistinctKeys = true) : ∃ lowers, Keyed lowers
    ∧ ∀ us, Keyed us → low.overlay (.mapping us) = .mapping (overlayEntries lowers us) := by
  by_cases hmapping : low.IsMapping
  · obtain ⟨lowers, rfl⟩ := hmapping
    exact ⟨lowers, keyed_of_areDistinct hlow, fun _ _ => rfl⟩
  · refine ⟨[], ⟨.nil, nofun⟩, fun us hus => ?_⟩
    rw [overlay_eq_upper fun h => hmapping h.1, overlayEntries_eq ⟨.nil, nofun⟩ hus]
    simp [lookup]

/-- Overlays without a key in common may be laid in either order, up to the order of entries. -/
theorem perm_overlay_overlay (hlow : low.hasDistinctKeys = true) (hus : areDistinct us = true)
    (hws : areDistinct ws = true) (hnone : NoneShared us ws) :
    ∃ es es', (low.overlay (.mapping us)).overlay (.mapping ws) = .mapping es
      ∧ (low.overlay (.mapping ws)).overlay (.mapping us) = .mapping es' ∧ es.Perm es' := by
  obtain ⟨lowers, hlowers, hoverlay⟩ := exists_lowers hlow
  have hu := keyed_of_areDistinct hus
  have hw := keyed_of_areDistinct hws
  rw [hoverlay us hu, hoverlay ws hw]
  refine ⟨_, _, rfl, rfl, ?_⟩
  rw [overlayEntries_overlayEntries hlowers hu hw hnone,
    overlayEntries_overlayEntries hlowers hw hu (hnone.symm hu hw)]
  have hchanged : lowers.map (fun e => laid ws (laid us e))
      = lowers.map fun e => laid us (laid ws e) :=
    List.map_congr_left fun e he => laid_comm hnone (hlowers.keys e he)
  rw [hchanged, List.append_assoc, List.append_assoc]
  exact List.perm_append_comm.append_left _

/-! ## Overlays -/

/-- What a tree laid over another one has at every path of keys; that laying it again, or a tree
over itself, changes nothing; and that mappings without a key in common may be laid in either order,
up to the order of entries. -/
theorem overlay_exact (hlow : low.hasDistinctKeys = true) (hhigh : high.hasDistinctKeys = true) :
    (∀ path, (∀ key ∈ path, key.hasDistinctKeys = true) →
      IsOverlaidAt low high (low.overlay high) path)
    ∧ (low.overlay high).overlay high = low.overlay high
    ∧ low.overlay low = low
    ∧ ∀ us ws, high = .mapping us → areDistinct ws = true → NoneShared us ws →
      ∃ es es', (low.overlay (.mapping us)).overlay (.mapping ws) = .mapping es
        ∧ (low.overlay (.mapping ws)).overlay (.mapping us) = .mapping es' ∧ es.Perm es' := by
  refine ⟨fun path hpath => isOverlaidAt_overlay hlow hhigh hpath, overlay_overlay hlow hhigh,
    overlay_self hlow, fun us ws heq hws hnone => ?_⟩
  subst heq
  exact perm_overlay_overlay hlow hhigh hws hnone

/-- Entries over which others are laid: a mapping, and a text. -/
def lowerSample : Value :=
  .mapping [(.text "server", .mapping [(.text "host", .text "a"), (.text "port", .integer 80)]),
    (.text "level", .text "info")]

def upperSample : List (Value × Value) :=
  [(.text "level", .null),
    (.text "server", .mapping [(.text "tls", .bool true), (.text "port", .integer 81)])]

theorem overlay_exact_sample :
    (lowerSample.hasDistinctKeys = true ∧ (mapping upperSample).hasDistinctKeys = true)
      ∧ lowerSample.overlay (.mapping upperSample)
        = .mapping [(.text "server", .mapping [(.text "host", .text "a"),
            (.text "port", .integer 81), (.text "tls", .bool true)]), (.text "level", .null)]
      ∧ IsOverlaidAt lowerSample (.mapping upperSample)
        (lowerSample.overlay (.mapping upperSample)) [.text "server", .text "tls"]
      ∧ ∃ es es',
        (lowerSample.overlay (.mapping upperSample)).overlay (.mapping [(.text "mode", .null)])
          = .mapping es
        ∧ (lowerSample.overlay (.mapping [(.text "mode", .null)])).overlay (.mapping upperSample)
          = .mapping es'
        ∧ es.Perm es' := by
  have hlow : lowerSample.hasDistinctKeys = true := by decide +kernel
  have hhigh : (mapping upperSample).hasDistinctKeys = true := by decide +kernel
  have hnone : NoneShared upperSample [(.text "mode", .null)] := by
    simp [NoneShared, upperSample, same]
  obtain ⟨hpaths, -, -, hcomm⟩ := overlay_exact hlow hhigh
  refine ⟨⟨hlow, hhigh⟩, rfl, hpaths _ ?_, hcomm _ _ rfl (by decide +kernel) hnone⟩
  intro key hkey
  simp only [List.mem_cons, List.not_mem_nil, or_false] at hkey
  rcases hkey with rfl | rfl <;> rfl

end StreamDispatch.Yaml.Value
