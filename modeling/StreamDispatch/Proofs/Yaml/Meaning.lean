import StreamDispatch.Proofs.Number.Decimal
import StreamDispatch.Proofs.Yaml.Plain

set_option autoImplicit false

/-! # What written scalars mean

A text that is written as it is means itself, since the printer writes no text so that is ambiguous.
The decimal digits of an integer mean the integer. -/

namespace StreamDispatch.Yaml

open Number (eq_nil_of_toDigits exists_head_toString isDigit_of_mem_toDigits toList_toString)

/-! ## Texts -/

theorem plainMeaning_of_not_ambiguous {s : String} (h : isAmbiguous s = false) :
    plainMeaning s = .ok (.text s) := by
  simp only [isAmbiguous, Bool.or_eq_false_iff] at h
  obtain ⟨⟨⟨⟨⟨hempty, hnull⟩, hbool⟩, hinteger⟩, hpadded⟩, hfloat⟩ := h
  unfold plainMeaning
  rw [hempty, hnull, Option.not_isSome_iff_eq_none.mp (Bool.eq_false_iff.mp hbool),
    Option.not_isSome_iff_eq_none.mp (Bool.eq_false_iff.mp hinteger), hpadded,
    Option.not_isSome_iff_eq_none.mp (Bool.eq_false_iff.mp hfloat)]
  rfl

/-! ## Integers -/

section Digits

variable {n : Nat} {cs : List Char}

theorem ne_of_isDigit {c d : Char} (hc : c.isDigit = true) (hd : d.isDigit = false) : c ≠ d := by
  rintro rfl
  rw [hc] at hd
  cases hd

theorem baseDigit?_of_isDigit {c : Char} (h : c.isDigit = true) :
    baseDigit? 10 c = some (c.toNat - '0'.toNat) := by
  have hdigit : '0' ≤ c ∧ c ≤ '9' := by
    simp only [Char.isDigit, Bool.and_eq_true, decide_eq_true_eq] at h
    exact h
  have hlt : c.toNat - '0'.toNat < 10 := by
    have hle : c.toNat ≤ '9'.toNat := hdigit.2
    have hnine : '9'.toNat = 57 := rfl
    have hzero : '0'.toNat = 48 := rfl
    omega
  rw [baseDigit?, if_pos hdigit, if_pos hlt]

theorem foldlM_digits (h : ∀ c ∈ cs, c.isDigit = true) :
    cs.foldlM (fun n c => (baseDigit? 10 c).map (n * 10 + ·)) n
      = some (Nat.ofDigitChars 10 cs n) := by
  induction cs generalizing n with
  | nil => rfl
  | cons c cs ih =>
    rw [List.forall_mem_cons] at h
    rw [List.foldlM_cons, baseDigit?_of_isDigit h.1, Nat.ofDigitChars_cons, Nat.mul_comm 10]
    exact ih h.2

theorem baseDigits?_toDigits (n : Nat) : baseDigits? 10 (Nat.toDigits 10 n) = some n := by
  have hnonempty : (Nat.toDigits 10 n).isEmpty = false := by simp
  rw [baseDigits?, hnonempty, if_neg Bool.false_ne_true,
    foldlM_digits fun c => isDigit_of_mem_toDigits,
    Nat.ofDigitChars_toDigits (by decide) (by decide)]

theorem isZeroPadded_toDigits (n : Nat) : isZeroPadded (Nat.toDigits 10 n) = false := by
  obtain ⟨c, cs, hcs⟩ := List.exists_cons_of_ne_nil (Nat.toDigits_ne_nil (n := n) (b := 10))
  have hc : c.isDigit = true := isDigit_of_mem_toDigits (n := n) (hcs ▸ List.mem_cons_self)
  have hzero : c = '0' → cs = [] := by
    rintro rfl
    exact eq_nil_of_toDigits hcs
  rw [hcs]
  unfold isZeroPadded
  split
  · next heq =>
    cases heq
    cases hc
  · next heq =>
    cases heq
    cases hc
  · by_cases h : c = '0'
    · simp [hzero h]
    · simp [h]

theorem magnitude?_toDigits (n : Nat) : magnitude? (Nat.toDigits 10 n) = some n := by
  have hdigit {c : Char} {cs : List Char} (h : Nat.toDigits 10 n = '0' :: c :: cs) :
      c.isDigit = true := isDigit_of_mem_toDigits (n := n) (h ▸ by simp)
  unfold magnitude?
  split
  · next h => cases hdigit h
  · next h => cases hdigit h
  · next h => cases hdigit h
  · rw [isZeroPadded_toDigits, if_neg Bool.false_ne_true, baseDigits?_toDigits]

end Digits

theorem integer?_toString (n : Int) : integer? (toString n).toList = some n := by
  obtain ⟨m, rfl, hchars⟩ | ⟨m, rfl, hchars⟩ := toList_toString n
  · have hdigit {c : Char} {cs : List Char} (h : Nat.toDigits 10 m = c :: cs) :
        c.isDigit = true := isDigit_of_mem_toDigits (n := m) (h ▸ List.mem_cons_self)
    rw [hchars]
    unfold integer?
    split
    · next h => cases hdigit h
    · next h => cases hdigit h
    · rw [magnitude?_toDigits]
      rfl
  · rw [hchars, integer?, magnitude?_toDigits]
    rfl

/-- An integer is not written like anything else. -/
theorem toString_ne (n : Int) {s : String}
    (hs : s.toList.head?.any (fun c => c == '-' || c.isDigit) = false) : toString n ≠ s := by
  rintro rfl
  obtain ⟨c, cs, hcs, hc⟩ := exists_head_toString n
  rw [hcs, List.head?_cons, Option.any_some, Bool.or_eq_false_iff, beq_eq_false_iff_ne] at hs
  rcases hc with rfl | hdigit
  · exact hs.1 rfl
  · rw [hdigit] at hs
    cases hs.2

theorem fitsWord_128_of_64 {n : Int} (h : fitsWord 64 n = true) : fitsWord 128 n = true := by
  simp only [fitsWord, Bool.and_eq_true, decide_eq_true_eq] at h ⊢
  have hlow : ((Nat.pow 2 (64 - 1) : Nat) : Int) ≤ (Nat.pow 2 (128 - 1) : Nat) := by decide
  have hhigh : ((Nat.pow 2 64 : Nat) : Int) ≤ (Nat.pow 2 128 : Nat) := by decide
  omega

/-- The digits of an integer that fits mean the integer. -/
theorem plainMeaning_integer {n : Int} (h : fitsWord 64 n = true) :
    plainMeaning (toString n) = .ok (.integer n) := by
  have hempty : (toString n).isEmpty = false := by
    rw [Bool.eq_false_iff, ne_eq, String.isEmpty_iff]
    exact toString_ne n rfl
  have hnull : isNullText (toString n) = false := by
    simp only [isNullText, Bool.or_eq_false_iff, beq_eq_false_iff_ne]
    exact ⟨⟨⟨toString_ne n (by decide), toString_ne n (by decide)⟩, toString_ne n (by decide)⟩,
      toString_ne n (by decide)⟩
  have hbool : boolText? (toString n) = none := by
    rw [boolText?, if_neg, if_neg]
    all_goals
      simp only [Bool.or_eq_true, beq_iff_eq, not_or]
      exact ⟨⟨toString_ne n (by decide), toString_ne n (by decide)⟩, toString_ne n (by decide)⟩
  unfold plainMeaning
  rw [hempty, hnull, hbool, integer?_toString, Option.filter_some, if_pos (fitsWord_128_of_64 h)]
  simp [h]

/-- Digits and hyphens have no meaning inside a plain scalar. -/
structure IsHarmless (c : Char) : Prop where
  shown : isShown c = true
  notBreak : isBreak c = false
  ne_colon : c ≠ ':'
  ne_hash : c ≠ '#'
  ne_space : c ≠ ' '

theorem isHarmless_of_isDigit {c : Char} (h : c.isDigit = true) : IsHarmless c := by
  have hrange : 48 ≤ c.toNat ∧ c.toNat ≤ 57 := by
    simpa [Char.isDigit, UInt32.le_iff_toNat_le] using h
  have hne {d : Char} (hd : d.isDigit = false) : c ≠ d := ne_of_isDigit h hd
  refine ⟨?_, ?_, hne rfl, hne rfl, hne rfl⟩
  · simp only [isShown, Bool.or_eq_true, Bool.and_eq_true, decide_eq_true_eq]
    exact .inl (.inr ⟨by omega, by omega⟩)
  · simp [isBreak, hne]

theorem holdsMark_of_harmless {cs : List Char} {before : Char} (h : ∀ c ∈ cs, IsHarmless c) :
    holdsMark before cs = false := by
  induction cs generalizing before with
  | nil => rfl
  | cons c cs ih =>
    rw [List.forall_mem_cons] at h
    simp [holdsMark, h.1.ne_colon, h.1.ne_hash, ih h.2]

theorem beginsMarked_of_isDigit {c : Char} {cs : List Char} (h : c.isDigit = true) :
    beginsMarked (c :: cs) = false ∧ beginsMarked ('-' :: c :: cs) = false := by
  have hne {d : Char} (hd : d.isDigit = false) : c ≠ d := ne_of_isDigit h hd
  refine ⟨?_, ?_⟩
  · unfold beginsMarked
    split
    · next heq => cases heq; cases h
    · next heq => cases heq; cases h
    · next heq =>
      cases heq
      simp [hne]
    · rfl
  · have hword : endsWord (c :: cs) = false := by simp [endsWord, isBlank, isBreak, hne]
    unfold beginsMarked
    split
    · next heq => cases heq; cases h
    · next heq => cases heq
    · next heq =>
      cases heq
      rw [hword]
      rfl
    · rfl

/-- The text of an integer stands as it is. -/
theorem allowsPlain_toString (n : Int) : allowsPlain (toString n).toList = true := by
  have hharmless : ∀ c ∈ (toString n).toList, IsHarmless c := by
    intro c hc
    obtain ⟨m, -, hchars⟩ | ⟨m, -, hchars⟩ := toList_toString n
    · exact isHarmless_of_isDigit (isDigit_of_mem_toDigits (hchars ▸ hc))
    · rw [hchars, List.mem_cons] at hc
      rcases hc with rfl | hc
      · exact ⟨rfl, rfl, by decide, by decide, by decide⟩
      · exact isHarmless_of_isDigit (isDigit_of_mem_toDigits hc)
  have hbegins : beginsMarked (toString n).toList = false := by
    obtain ⟨m, -, hchars⟩ | ⟨m, -, hchars⟩ := toList_toString n
    all_goals
      obtain ⟨c, cs, hcs⟩ := List.exists_cons_of_ne_nil (Nat.toDigits_ne_nil (n := m) (b := 10))
      have hc : c.isDigit = true := isDigit_of_mem_toDigits (n := m) (hcs ▸ List.mem_cons_self)
      rw [hchars, hcs]
    · exact (beginsMarked_of_isDigit hc).1
    · exact (beginsMarked_of_isDigit hc).2
  obtain ⟨c, cs, hcs, -⟩ := exists_head_toString n
  rw [hcs] at hharmless hbegins ⊢
  obtain ⟨hc, hrest⟩ := List.forall_mem_cons.mp hharmless
  have hlast : (c :: cs).getLast? ≠ some ' ' :=
    fun hlast => (hharmless ' ' (List.mem_of_getLast? hlast)).ne_space rfl
  simp only [allowsPlain, hbegins, holdsMark_of_harmless hrest, Bool.and_eq_true,
    List.all_eq_true, Bool.not_eq_true', bne_iff_ne, Bool.not_false, and_true]
  exact ⟨⟨⟨fun d hd => (hharmless d hd).shown, fun d hd => (hharmless d hd).notBreak⟩, hc.ne_space⟩,
    hlast⟩

end StreamDispatch.Yaml
