import StreamDispatch.Json.Parser
import StreamDispatch.Json.Printer
import StreamDispatch.Proofs.Number.Decimal

set_option autoImplicit false

/-! # JSON strings and integers that are read back

Each character of a string is written so that the reader takes it from the front, whatever follows
(`readChars_escapeChar`), and so the string is read back (`readChars_flatMap_escapeChar`). An
integer in range is read back as well, as long as nothing follows that would go on with a number
(`readNumber_toString`). -/

namespace StreamDispatch.Json

/-! ## Strings -/

section Strings

variable {a b c d ch : Char} {n : Nat} {rest : List Char}

/-- A character in front of what is read from the rest. -/
def onto (ch : Char) (tail : Option (List Char × List Char)) : Option (List Char × List Char) :=
  tail.map fun t => (ch :: t.1, t.2)

theorem readChars_unit (hquad : hexQuad? a b c d = some n) (hchar : unitChar? n = some ch) :
    readChars ('\\' :: 'u' :: a :: b :: c :: d :: rest) = onto ch (readChars rest) := by
  rw [readChars.eq_def]
  split
  · next heq => cases heq
  · next heq => cases heq
  · -- The escape that follows is read by itself, since this one is no half of a pair.
    next heq =>
    cases heq
    simp only [bind, hquad, hchar, Option.bind_some]
    cases readChars _ <;> rfl
  · next heq =>
    cases heq
    simp only [bind, hquad, hchar, Option.bind_some]
    cases readChars _ <;> rfl
  · next hnot heq =>
    cases heq
    exact absurd rfl (hnot _ _ _ _ _ rfl)
  · next hnot heq =>
    cases heq
    exact absurd rfl (hnot _ _ rfl)

theorem readChars_letter (hc : c ≠ 'u') (h : letterEscape? c = some ch) :
    readChars ('\\' :: c :: rest) = onto ch (readChars rest) := by
  rw [readChars.eq_def]
  split
  · next heq => cases heq
  · next heq => cases heq
  · next heq => exact absurd (List.cons.inj (List.cons.inj heq).2).1 hc
  · next heq => exact absurd (List.cons.inj (List.cons.inj heq).2).1 hc
  · next heq =>
    cases heq
    simp only [bind, h, Option.bind_some]
    cases readChars _ <;> rfl
  · next hnot heq =>
    cases heq
    exact absurd rfl (hnot _ _ rfl)

theorem readChars_plain (hquote : c ≠ '"') (hbackslash : c ≠ '\\') (hcontrol : 0x20 ≤ c.toNat) :
    readChars (c :: rest) = onto c (readChars rest) := by
  rw [readChars.eq_def]
  split
  · next heq => cases heq
  · next heq => exact absurd (List.cons.inj heq).1 hquote
  · next heq => exact absurd (List.cons.inj heq).1 hbackslash
  · next heq => exact absurd (List.cons.inj heq).1 hbackslash
  · next heq => exact absurd (List.cons.inj heq).1 hbackslash
  · next heq =>
    cases heq
    rw [if_neg (Nat.not_lt.mpr hcontrol)]
    cases readChars _ <;> rfl

/-- The code of a control character in hexadecimal. -/
theorem hexQuad?_hexPair : ∀ n < 0x20,
    hexQuad? '0' '0' (Nat.digitChar (n / 16)) (Nat.digitChar (n % 16)) = some n := by
  decide

theorem readChars_escapeChar (c : Char) (rest : List Char) :
    readChars (escapeChar c ++ rest) = onto c (readChars rest) := by
  unfold escapeChar
  split
  · next h => rw [h]; exact readChars_letter (by decide) rfl
  split
  · next h => rw [h]; exact readChars_letter (by decide) rfl
  split
  · next h => rw [h]; exact readChars_letter (by decide) rfl
  split
  · next h => rw [h]; exact readChars_letter (by decide) rfl
  split
  · next h => rw [h]; exact readChars_letter (by decide) rfl
  split
  · next h => rw [h]; exact readChars_letter (by decide) rfl
  split
  · next h => rw [h]; exact readChars_letter (by decide) rfl
  split
  · next hcontrol =>
    have hsurrogate : ¬(0xD800 ≤ c.toNat ∧ c.toNat ≤ 0xDFFF) := by omega
    have hchar : unitChar? c.toNat = some c := by
      rw [unitChar?, if_neg hsurrogate, Char.ofNat_toNat]
    exact readChars_unit (hexQuad?_hexPair _ hcontrol) hchar
  · next hquote hbackslash _ _ _ _ _ hcontrol =>
    exact readChars_plain hquote hbackslash (by omega)

/-- What is written for a text between quotes is read as the text. -/
theorem readChars_flatMap_escapeChar (cs rest : List Char) :
    readChars (cs.flatMap escapeChar ++ '"' :: rest) = some (cs, rest) := by
  induction cs with
  | nil => simp [readChars]
  | cons c cs ih => rw [List.flatMap_cons, List.append_assoc, readChars_escapeChar, ih]; rfl

end Strings

/-! ## Integers -/

section Integers

variable {n : Int} {cs rest : List Char}

/-- Nothing stands at the front that would go on with a number. -/
def EndsNumber (rest : List Char) : Prop :=
  ∀ c ∈ rest.head?, c.isDigit = false ∧ c ≠ '.' ∧ c ≠ 'e' ∧ c ≠ 'E'

theorem readDigits_append (hcs : ∀ c ∈ cs, c.isDigit = true) (hrest : EndsNumber rest) :
    readDigits (cs ++ rest) = (cs, rest) := by
  have hstop : rest.takeWhile Char.isDigit = [] ∧ rest.dropWhile Char.isDigit = rest := by
    cases rest with
    | nil => exact ⟨rfl, rfl⟩
    | cons c rest => simp [(hrest c rfl).1]
  rw [readDigits, List.takeWhile_append_of_pos hcs, List.dropWhile_append_of_pos hcs, hstop.1,
    hstop.2, List.append_nil]

theorem digitsValue_eq_ofDigitChars : digitsValue cs = Nat.ofDigitChars 10 cs 0 := by
  rw [digitsValue, Nat.ofDigitChars_eq_foldl]
  simp only [Nat.mul_comm 10]

theorem digitsValue_toDigits (m : Nat) : digitsValue (Nat.toDigits 10 m) = m := by
  rw [digitsValue_eq_ofDigitChars, Nat.ofDigitChars_toDigits (by decide) (by decide)]

theorem readFraction_of_endsNumber (h : EndsNumber rest) : readFraction rest = some ([], rest) := by
  unfold readFraction
  split
  · exact absurd rfl (h '.' rfl).2.1
  · rfl

theorem readPower_of_endsNumber (h : EndsNumber rest) : readPower rest = some (none, rest) := by
  cases rest with
  | nil => rfl
  | cons c rest =>
    obtain ⟨-, -, he, hE⟩ := h c rfl
    unfold readPower
    exact if_neg (not_or.mpr ⟨he, hE⟩)

theorem number?_toDigits (negative : Bool) {m : Nat}
    (hn : n = if negative then -(m : Int) else m) (hrange : integerRange n = true)
    (hzero : negative = true → m ≠ 0) :
    number? negative (Nat.toDigits 10 m) [] none = some (.integer n) := by
  have hsign : (negative && n == 0) = false := by
    cases negative with
    | false => rfl
    | true =>
      rw [Bool.true_and, beq_eq_false_iff_ne, hn, if_pos rfl]
      have hm := hzero rfl
      omega
  unfold number?
  rw [digitsValue_toDigits, ← hn]
  exact if_pos ⟨rfl, rfl, hrange, by rw [hsign]; rfl⟩

theorem not_padded_toDigits (m : Nat) :
    ¬((Nat.toDigits 10 m).head? = some '0' ∧ 1 < (Nat.toDigits 10 m).length) := by
  rintro ⟨hhead, hlength⟩
  rw [Number.eq_zero_of_head?_toDigits hhead, Nat.toDigits_zero] at hlength
  exact Nat.lt_irrefl 1 hlength

/-- Digits are read with the sign in front of them. -/
theorem readNumber_toDigits (negative : Bool) {m : Nat}
    (hn : n = if negative then -(m : Int) else m) (hrange : integerRange n = true)
    (hzero : negative = true → m ≠ 0) (hrest : EndsNumber rest) :
    readNumber ((if negative then ['-'] else []) ++ Nat.toDigits 10 m ++ rest)
      = some (.integer n, rest) := by
  have hnumber := number?_toDigits negative hn hrange hzero
  have hwhole := not_padded_toDigits m
  have hdigits : readDigits (Nat.toDigits 10 m ++ rest) = (Nat.toDigits 10 m, rest) :=
    readDigits_append (fun _ => Number.isDigit_of_mem_toDigits) hrest
  obtain ⟨c, ds, hds⟩ := List.exists_cons_of_ne_nil (Nat.toDigits_ne_nil (n := m) (b := 10))
  have hc : c ≠ '-' := by
    have hdigit : c.isDigit = true := Number.isDigit_of_mem_toDigits (hds ▸ List.mem_cons_self)
    rintro rfl
    cases hdigit
  rw [hds] at hnumber hwhole hdigits ⊢
  rw [List.cons_append] at hdigits
  unfold readNumber
  split
  next sign cs heq =>
  have hcs : (sign, cs) = (negative, c :: (ds ++ rest)) := by
    rw [← heq]
    cases negative with
    | true => rfl
    | false =>
      split
      · next hminus => exact absurd (List.cons.inj hminus).1 hc
      · rfl
  cases hcs
  rw [hdigits]
  simp only [if_neg hwhole, readFraction_of_endsNumber hrest, readPower_of_endsNumber hrest,
    hnumber, bind, Option.bind_some]
  rfl

/-- What is written for an integer in range is read as the integer. -/
theorem readNumber_toString (hn : integerRange n = true) (hrest : EndsNumber rest) :
    readNumber ((toString n).toList ++ rest) = some (.integer n, rest) := by
  obtain ⟨m, hm, hchars⟩ | ⟨m, hm, hchars⟩ := Number.toList_toString n
  · rw [hchars]
    exact readNumber_toDigits false hm hn nofun hrest
  · rw [hchars]
    refine readNumber_toDigits true hm hn (fun _ hzero => ?_) hrest
    rw [hm, hzero] at hchars
    cases hchars

end Integers

end StreamDispatch.Json
