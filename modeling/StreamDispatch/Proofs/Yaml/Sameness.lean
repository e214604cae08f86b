import StreamDispatch.Proofs.Yaml.Tree

set_option autoImplicit false

/-! # Values that are the same

A key of a mapping is found by sameness, and two values may be the same without being equal: the
order of entries does not count, nor does an exclamation mark in front of a tag, and the two zeros
are one number. Sameness is an equivalence (`same_refl`, `same_symm`, `same_trans`) as long as no
mapping has the same key twice, so that a mapping has at most one entry for a key, under whichever
of its forms the key is looked up. -/

namespace StreamDispatch.Yaml.Value

/-! ## Induction on trees -/

/-- What holds of the leaves and of a tree whenever it holds of all trees directly in it holds of
every tree. -/
@[elab_as_elim]
theorem inductionOn {motive : Value → Prop} (v : Value) (null : motive .null)
    (bool : ∀ b, motive (.bool b)) (integer : ∀ n, motive (.integer n))
    (float : ∀ x, motive (.float x)) (text : ∀ s, motive (.text s))
    (sequence : ∀ items, (∀ v ∈ items, motive v) → motive (.sequence items))
    (mapping : ∀ entries, (∀ e ∈ entries, motive e.1 ∧ motive e.2) → motive (.mapping entries))
    (tagged : ∀ tag v, motive v → motive (.tagged tag v)) : motive v :=
  Value.rec (motive_1 := motive) (motive_2 := fun items => ∀ v ∈ items, motive v)
    (motive_3 := fun entries => ∀ e ∈ entries, motive e.1 ∧ motive e.2)
    (motive_4 := fun e => motive e.1 ∧ motive e.2)
    null bool integer float text sequence mapping tagged nofun
    (fun _ _ hv hrest => List.forall_mem_cons.mpr ⟨hv, hrest⟩) nofun
    (fun _ _ he hrest => List.forall_mem_cons.mpr ⟨he, hrest⟩) (fun _ _ hk hv => ⟨hk, hv⟩) v

variable {u v w key : Value} {entries entries' : List (Value × Value)}

/-! ## Parts -/

theorem sameItems_iff {items items' : List Value} :
    sameItems items items' = true ↔ List.Forall₂ (fun x y => x.same y = true) items items' := by
  induction items generalizing items' with
  | nil => cases items' <;> simp [sameItems]
  | cons x items ih => cases items' <;> simp [sameItems, ih]

theorem sameEntries_iff : sameEntries entries entries' = true ↔
    ∀ x ∈ entries, ∃ y ∈ entries', x.1.same y.1 = true ∧ x.2.same y.2 = true := by
  induction entries with
  | nil => simp [sameEntries]
  | cons x rest ih =>
    obtain ⟨k, v⟩ := x
    rw [sameEntries, Bool.and_eq_true, ih, List.forall_mem_cons, List.any_eq_true]
    simp only [Bool.and_eq_true]

theorem forall₂_trans {α : Type} {R : α → α → Prop} {xs ys zs : List α}
    (hR : ∀ x ∈ xs, ∀ y z, R x y → R y z → R x z) (hxy : List.Forall₂ R xs ys)
    (hyz : List.Forall₂ R ys zs) : List.Forall₂ R xs zs := by
  induction hxy generalizing zs with
  | nil => exact hyz
  | cons hx _ ih =>
    rw [List.forall_mem_cons] at hR
    cases hyz with
    | cons hy hyz => exact .cons (hR.1 _ _ hx hy) (ih hR.2 hyz)

theorem forall₂_symm {α : Type} {R : α → α → Prop} {xs ys : List α}
    (hR : ∀ x ∈ xs, ∀ y, R x y → R y x) (h : List.Forall₂ R xs ys) : List.Forall₂ R ys xs := by
  induction h with
  | nil => exact .nil
  | cons hx _ ih =>
    rw [List.forall_mem_cons] at hR
    exact .cons (hR.1 _ hx) (ih hR.2)

theorem same_mapping_iff : (mapping entries).same (mapping entries') = true ↔
    entries.length = entries'.length
      ∧ ∀ x ∈ entries, ∃ y ∈ entries', x.1.same y.1 = true ∧ x.2.same y.2 = true := by
  rw [same, Bool.and_eq_true, beq_iff_eq, sameEntries_iff]

/-! ## Equivalence -/

open Number (Binary64)

theorem sameNumber_refl (x : Binary64) : x.sameNumber x = true := by
  cases x <;> simp [Binary64.sameNumber]

theorem sameNumber_symm {x y : Binary64} (h : x.sameNumber y = true) : y.sameNumber x = true := by
  cases x <;> cases y <;> simp_all [Binary64.sameNumber]
  grind

theorem sameNumber_trans {x y z : Binary64} (hxy : x.sameNumber y = true)
    (hyz : y.sameNumber z = true) : x.sameNumber z = true := by
  cases x <;> cases y <;> cases z <;> simp_all [Binary64.sameNumber]
  grind

theorem same_refl (v : Value) : v.same v = true := by
  induction v using inductionOn with
  | null => rfl
  | bool b | integer n | text s => exact beq_self_eq_true _
  | float x => exact sameNumber_refl x
  | sequence items ih =>
    rw [same, sameItems_iff]
    exact List.forall₂_same.mpr ih
  | mapping entries ih =>
    rw [same_mapping_iff]
    exact ⟨rfl, fun x hx => ⟨x, hx, ih x hx⟩⟩
  | tagged tag v ih => rw [same, beq_self_eq_true, ih, Bool.and_self]

theorem same_trans (huv : u.same v = true) (hvw : v.same w = true) : u.same w = true := by
  induction u using inductionOn generalizing v w with
  | null | bool b | integer n | text s => cases v <;> simp_all [same]
  | float x =>
    cases v with
    | float y =>
      cases w with
      | float z =>
        rw [same] at huv hvw ⊢
        exact sameNumber_trans huv hvw
      | _ => simp [same] at hvw
    | _ => simp [same] at huv
  | sequence items ih =>
    cases v with
    | sequence items' =>
      cases w with
      | sequence items'' =>
        rw [same, sameItems_iff] at huv hvw ⊢
        exact forall₂_trans (fun x hx _ _ => ih x hx) huv hvw
      | _ => simp [same] at hvw
    | _ => simp [same] at huv
  | mapping entries ih =>
    cases v with
    | mapping entries' =>
      cases w with
      | mapping entries'' =>
        rw [same_mapping_iff] at huv hvw ⊢
        refine ⟨huv.1.trans hvw.1, fun x hx => ?_⟩
        obtain ⟨y, hy, hkey, hvalue⟩ := huv.2 x hx
        obtain ⟨z, hz, hkey', hvalue'⟩ := hvw.2 y hy
        exact ⟨z, hz, (ih x hx).1 hkey hkey', (ih x hx).2 hvalue hvalue'⟩
      | _ => simp [same] at hvw
    | _ => simp [same] at huv
  | tagged tag v' ih =>
    cases v with
    | tagged tag' v =>
      cases w with
      | tagged tag'' w =>
        rw [same, Bool.and_eq_true, beq_iff_eq] at huv hvw ⊢
        exact ⟨huv.1.trans hvw.1, ih huv.2 hvw.2⟩
      | _ => simp [same] at hvw
    | _ => simp [same] at huv

/-- If every element of a list has a partner in another one that is no longer, and no two of them
have the same partner, then every element of the other list is a partner. -/
theorem exists_partner {α β : Type} {R : α → β → Prop} {xs : List α} {ys : List β}
    (hlength : ys.length ≤ xs.length) (hpartner : ∀ x ∈ xs, ∃ y ∈ ys, R x y)
    (hapart : xs.Pairwise fun x x' => ∀ y, R x y → ¬R x' y) : ∀ y ∈ ys, ∃ x ∈ xs, R x y := by
  induction xs generalizing ys with
  | nil =>
    rw [List.eq_nil_of_length_eq_zero (Nat.le_zero.mp hlength)]
    exact nofun
  | cons x xs ih =>
    obtain ⟨hx, hxs⟩ := List.pairwise_cons.mp hapart
    rw [List.forall_mem_cons] at hpartner
    obtain ⟨⟨y, hy, hxy⟩, hothers⟩ := hpartner
    obtain ⟨front, back, rfl⟩ := List.append_of_mem hy
    -- The others have their partners among what is left without the partner of the first.
    have hleft : ∀ x' ∈ xs, ∃ y' ∈ front ++ back, R x' y' := by
      intro x' hx'
      obtain ⟨y', hy', hR⟩ := hothers x' hx'
      have hne : y' ≠ y := fun h => hx x' hx' y hxy (h ▸ hR)
      refine ⟨y', ?_, hR⟩
      simpa [hne] using hy'
    have hall := ih (by simp at hlength ⊢; omega) hleft hxs
    intro y' hy'
    by_cases hne : y' = y
    · exact ⟨x, List.mem_cons_self, hne ▸ hxy⟩
    · obtain ⟨x', hx', hR⟩ := hall y' (by simpa [hne] using hy')
      exact ⟨x', List.mem_cons_of_mem _ hx', hR⟩

theorem areDistinct_iff : areDistinct entries = true ↔
    entries.Pairwise (fun x y => y.1.same x.1 = false)
      ∧ ∀ x ∈ entries, x.1.hasDistinctKeys = true ∧ x.2.hasDistinctKeys = true := by
  induction entries with
  | nil => simp [areDistinct]
  | cons x rest ih =>
    obtain ⟨k, v⟩ := x
    rw [areDistinct_cons, ih, List.pairwise_cons, List.forall_mem_cons]
    tauto

theorem same_symm (hv : v.hasDistinctKeys = true) (h : v.same w = true) : w.same v = true := by
  induction v using inductionOn generalizing w with
  | null | bool b | integer n | text s => cases w <;> simp_all [same]
  | float x =>
    cases w with
    | float y =>
      rw [same] at h ⊢
      exact sameNumber_symm h
    | _ => simp [same] at h
  | sequence items ih =>
    cases w with
    | sequence items' =>
      rw [same, sameItems_iff] at h ⊢
      rw [hasDistinctKeys, haveDistinctKeys_iff] at hv
      exact forall₂_symm (fun x hx _ => ih x hx (hv x hx)) h
    | _ => simp [same] at h
  | mapping entries ih =>
    cases w with
    | mapping entries' =>
      rw [same_mapping_iff] at h ⊢
      rw [hasDistinctKeys, areDistinct_iff] at hv
      obtain ⟨hlength, hpartner⟩ := h
      obtain ⟨hdistinct, hparts⟩ := hv
      have hsymm {x : Value × Value} (hx : x ∈ entries) {y : Value × Value}
          (hxy : x.1.same y.1 = true ∧ x.2.same y.2 = true) :
          y.1.same x.1 = true ∧ y.2.same x.2 = true :=
        ⟨(ih x hx).1 (hparts x hx).1 hxy.1, (ih x hx).2 (hparts x hx).2 hxy.2⟩
      -- Two keys that are the same as a third one would be the same.
      have hapart : entries.Pairwise fun x x' => ∀ y : Value × Value,
          (x.1.same y.1 = true ∧ x.2.same y.2 = true)
            → ¬(x'.1.same y.1 = true ∧ x'.2.same y.2 = true) := by
        refine hdistinct.imp_of_mem fun hx _ hne y hxy hxy' => ?_
        exact Bool.false_ne_true (hne.symm.trans (same_trans hxy'.1 (hsymm hx hxy).1))
      refine ⟨hlength.symm, fun y hy => ?_⟩
      obtain ⟨x, hx, hxy⟩ := exists_partner (Nat.le_of_eq hlength.symm) hpartner hapart y hy
      exact ⟨x, hx, hsymm hx hxy⟩
    | _ => simp [same] at h
  | tagged tag v' ih =>
    cases w with
    | tagged tag' w =>
      rw [same, Bool.and_eq_true, beq_iff_eq] at h ⊢
      exact ⟨h.1.symm, ih hv h.2⟩
    | _ => simp [same] at h

end StreamDispatch.Yaml.Value
