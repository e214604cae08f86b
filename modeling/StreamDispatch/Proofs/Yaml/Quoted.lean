import StreamDispatch.Proofs.Yaml.Plain

set_option autoImplicit false

/-! # Texts between quotes

Between single quotes a text keeps its breaks, as long as it has no blank next to one; between
double quotes every character is shown, or told by an escape. In both cases the text is read back as
it is. -/

namespace StreamDispatch.Yaml

variable {c : Char} {cs rest out : List Char} {gap : Gap} {p : Position}

/-! ## Single quotes -/

theorem hasPair_cons {f g : Char → Bool} (h : hasPair f g (c :: cs) = false) :
    hasPair f g cs = false ∧ (f c = true → ∀ d ∈ cs.head?, g d = false) := by
  cases cs with
  | nil => exact ⟨rfl, fun _ => nofun⟩
  | cons d cs =>
    simp only [hasPair, Bool.or_eq_false_iff] at h
    refine ⟨h.2, fun hc e he => ?_⟩
    cases he
    simpa [hc] using h.1

/-- The breaks that are shown are read as they are. -/
theorem breakChar_eq (hshown : isShown c = true) (h : isBreak c = true) : breakChar c = c := by
  simp only [isBreak, Bool.or_eq_true, beq_iff_eq] at h
  rcases h with (((rfl | rfl) | rfl) | rfl) | rfl
  · rfl
  · revert hshown
    decide
  · revert hshown
    decide
  · rfl
  · rfl

theorem ne_of_isShown {d : Char} (hshown : isShown c = true) (hd : isShown d = false) : c ≠ d := by
  rintro rfl
  rw [hshown] at hd
  cases hd

theorem Gap.text_addBreak (hblanks : gap.broken = false → gap.blanks = [])
    (hkept : gap.broken = true → gap.first ≠ ['\n']) (hc : c ≠ '\n') :
    (gap.addBreak c).text = gap.text ++ [c] := by
  cases hbroken : gap.broken with
  | false => simp [Gap.text, Gap.addBreak, hbroken, hblanks hbroken, hc]
  | true => simp [Gap.text, Gap.addBreak, hbroken, hkept hbroken]

section SingleQuoted

theorem readSingleQuoted_break (hshown : isShown c = true) (hbreak : isBreak c = true) :
    readSingleQuoted out gap p (c :: rest)
      = readSingleQuoted out (gap.addBreak c) (p.down 1) rest := by
  rw [readSingleQuoted]
  · rw [if_pos hbreak, breakChar_eq hshown hbreak]
  · rintro _ rfl
    exact absurd hshown (by decide)
  · rintro _ rfl
    exact absurd hbreak (by decide)

theorem readSingleQuoted_blank :
    readSingleQuoted out gap p (' ' :: rest)
      = readSingleQuoted out (gap.addBlank ' ') (p.right 1) rest := by
  rw [readSingleQuoted]
  · rfl
  · nofun
  · nofun

theorem readSingleQuoted_spaces (hgap : gap.broken = true) (n : Nat) :
    readSingleQuoted out gap p (spaces n ++ rest)
      = readSingleQuoted out gap (p.right n) rest := by
  induction n generalizing p with
  | zero => rfl
  | succ n ih =>
    have hsame : gap.addBlank ' ' = gap := by rw [Gap.addBlank, if_pos hgap]
    rw [spaces_succ, List.cons_append, readSingleQuoted_blank, hsame, ih, Position.right_right,
      Nat.add_comm 1]

theorem readSingleQuoted_char (hbreak : isBreak c = false) (hblank : isBlank c = false)
    (hquote : c ≠ '\'') (hpos : 0 < p.column) :
    readSingleQuoted out gap p (c :: rest)
      = readSingleQuoted (c :: gap.text.reverse ++ out) .none (p.right 1) rest := by
  rw [readSingleQuoted]
  · simp [hbreak, hblank, hquote, marksDocument_of_pos hpos]
  · rintro _ rfl
    cases hbreak
  · rintro _ rfl
    exact absurd rfl hquote

theorem readSingleQuoted_pair :
    readSingleQuoted out gap p ('\'' :: '\'' :: rest)
      = readSingleQuoted ('\'' :: gap.text.reverse ++ out) .none (p.right 2) rest := by
  rw [readSingleQuoted]

theorem readSingleQuoted_close (hpos : 0 < p.column) (hrest : rest.head? ≠ some '\'') :
    readSingleQuoted out gap p ('\'' :: rest)
      = .ok (out.reverse ++ gap.text, ⟨p.right 1, rest⟩) := by
  rw [readSingleQuoted]
  · simp [isBreak, isBlank, marksDocument_of_pos hpos]
  · rintro _ ⟨⟩
  · rintro _ - rfl
    exact hrest rfl

/-- A text of one line, as far as line feeds go, that may stand between single quotes. -/
structure StandsQuoted (cs : List Char) : Prop where
  shown : ∀ c ∈ cs, isShown c = true
  oneLine : '\n' ∉ cs
  before : hasPair (· == ' ') isBreak cs = false
  behind : hasPair isBreak (· == ' ') cs = false

theorem StandsQuoted.tail (h : StandsQuoted (c :: cs)) : StandsQuoted cs where
  shown := (List.forall_mem_cons.mp h.shown).2
  oneLine hmem := h.oneLine (List.mem_cons_of_mem _ hmem)
  before := (hasPair_cons h.before).1
  behind := (hasPair_cons h.behind).1

/-- How a reader stands before the rest of a text. If a break is behind it, the blanks that come
next are those of the indentation; the reader drops them, and it would drop blanks before a
break. -/
structure AwaitsQuoted (afterBreak : Bool) (gap : Gap) (p : Position) (cs : List Char) : Prop where
  broken : gap.broken = afterBreak
  kept : afterBreak = true → gap.first ≠ ['\n']
  indented : afterBreak = true → cs.head? ≠ some ' '
  blanks : afterBreak = false → gap.blanks = [] ∨ ∀ d ∈ cs.head?, isBreak d = false
  inLine : afterBreak = false → 0 < p.column

theorem AwaitsQuoted.nil (h : 0 < p.column) : AwaitsQuoted false .none p cs :=
  ⟨rfl, nofun, nofun, fun _ => .inl rfl, fun _ => h⟩

theorem AwaitsQuoted.break {afterBreak : Bool} (h : AwaitsQuoted afterBreak gap p (c :: cs))
    (hcs : StandsQuoted (c :: cs)) (hbreak : isBreak c = true) :
    AwaitsQuoted true (gap.addBreak c) (p.down 1) cs ∧ (gap.addBreak c).text = gap.text ++ [c] := by
  have hc : c ≠ '\n' := fun heq => hcs.oneLine (heq ▸ List.mem_cons_self)
  refine ⟨⟨?_, ?_, ?_, nofun, nofun⟩, ?_⟩
  · unfold Gap.addBreak
    split
    · assumption
    · rfl
  · intro _
    unfold Gap.addBreak
    split
    · next hbroken => exact h.kept (h.broken ▸ hbroken)
    · simpa using hc
  · intro _ hhead
    simpa using (hasPair_cons hcs.behind).2 hbreak ' ' hhead
  · refine Gap.text_addBreak (fun hbroken => ?_) (fun hbroken => h.kept (h.broken ▸ hbroken)) hc
    rcases h.blanks (h.broken ▸ hbroken) with hnil | hhead
    · exact hnil
    · rw [hhead c rfl] at hbreak
      cases hbreak

theorem AwaitsQuoted.blank (h : AwaitsQuoted false gap p (' ' :: cs)) (p' : Position)
    (hcs : StandsQuoted (' ' :: cs)) (hpos : 0 < p'.column) :
    AwaitsQuoted false (gap.addBlank ' ') p' cs
      ∧ (gap.addBlank ' ').text = gap.text ++ [' '] := by
  refine ⟨⟨?_, nofun, nofun, fun _ => .inr ((hasPair_cons hcs.before).2 rfl), fun _ => hpos⟩, ?_⟩
  · simp [Gap.addBlank, h.broken]
  · simp [Gap.addBlank, Gap.text, h.broken]

/-- The text is read back from any point on. -/
theorem readSingleQuoted_append {indent : Nat} {afterBreak : Bool} (out : List Char)
    (p : Position) (hindent : 0 < indent)
    (hcs : StandsQuoted cs) (h : AwaitsQuoted afterBreak gap p cs)
    (hrest : rest.head? ≠ some '\'') :
    ∃ q, readSingleQuoted out gap p (singleQuotedChars indent afterBreak cs ++ '\'' :: rest)
      = .ok (out.reverse ++ gap.text ++ cs, ⟨q, rest⟩) := by
  induction cs generalizing out gap p afterBreak with
  | nil =>
    rw [List.append_nil]
    cases afterBreak with
    | false => exact ⟨_, readSingleQuoted_close (h.inLine rfl) hrest⟩
    | true =>
      rw [singleQuotedChars, if_pos rfl, readSingleQuoted_spaces h.broken]
      exact ⟨_, readSingleQuoted_close (Nat.lt_add_left _ hindent) hrest⟩
  | cons c cs ih =>
    have hshown := hcs.shown c List.mem_cons_self
    by_cases hbreak : isBreak c = true
    · obtain ⟨hawaits, htext⟩ := h.break hcs hbreak
      obtain ⟨q, hq⟩ := ih out (p.down 1) hcs.tail hawaits
      refine ⟨q, ?_⟩
      rw [singleQuotedChars, if_pos hbreak, List.cons_append, readSingleQuoted_break hshown hbreak,
        hq, htext]
      simp
    · rw [Bool.not_eq_true] at hbreak
      rw [singleQuotedChars, hbreak, if_neg Bool.false_ne_true]
      -- Behind a break, the reader passes over the indentation.
      obtain ⟨p', hpos, hline⟩ : ∃ p' : Position, 0 < p'.column ∧ ∀ rest',
          readSingleQuoted out gap p ((if afterBreak then spaces indent else []) ++ rest')
            = readSingleQuoted out gap p' rest' := by
        cases afterBreak with
        | false => exact ⟨p, h.inLine rfl, fun _ => rfl⟩
        | true =>
          exact ⟨p.right indent, Nat.lt_add_left _ hindent,
            fun _ => readSingleQuoted_spaces h.broken indent⟩
      rw [List.append_assoc, List.append_assoc, hline]
      by_cases hquote : c = '\''
      · obtain ⟨q, hq⟩ := ih ('\'' :: gap.text.reverse ++ out) (p'.right 2) hcs.tail
          (.nil (Nat.succ_pos _))
        refine ⟨q, ?_⟩
        rw [hquote, if_pos (beq_self_eq_true _), List.cons_append, List.singleton_append,
          readSingleQuoted_pair, hq]
        simp [Gap.text, Gap.none]
      · rw [if_neg (by simpa using hquote), List.singleton_append]
        by_cases hblank : isBlank c = true
        · obtain rfl := eq_space_of_isBlank hshown hblank
          cases afterBreak with
          | true => exact absurd rfl (h.indented rfl)
          | false =>
            obtain ⟨hawaits, htext⟩ := h.blank (p'.right 1) hcs (Nat.succ_pos _)
            obtain ⟨q, hq⟩ := ih out (p'.right 1) hcs.tail hawaits
            refine ⟨q, ?_⟩
            rw [readSingleQuoted_blank, hq, htext]
            simp
        · rw [Bool.not_eq_true] at hblank
          obtain ⟨q, hq⟩ := ih (c :: gap.text.reverse ++ out) (p'.right 1) hcs.tail
            (.nil (Nat.succ_pos _))
          refine ⟨q, ?_⟩
          rw [readSingleQuoted_char hbreak hblank hquote hpos, hq]
          simp [Gap.text, Gap.none]

end SingleQuoted

/-! ## Double quotes -/

section DoubleQuoted

theorem readDoubleQuoted_blank :
    readDoubleQuoted out gap .outside p (' ' :: rest)
      = readDoubleQuoted out (gap.addBlank ' ') .outside (p.right 1) rest := by
  rw [readDoubleQuoted]
  · rfl
  · nofun

theorem readDoubleQuoted_char (hbreak : isBreak c = false) (hblank : isBlank c = false)
    (hquote : c ≠ '"') (hescape : c ≠ '\\') (hpos : 0 < p.column) :
    readDoubleQuoted out gap .outside p (c :: rest)
      = readDoubleQuoted (c :: gap.text.reverse ++ out) .none .outside (p.right 1) rest := by
  rw [readDoubleQuoted]
  · simp [hbreak, hblank, hquote, hescape, marksDocument_of_pos hpos]
  · rintro _ rfl
    cases hbreak

theorem readDoubleQuoted_close (hpos : 0 < p.column) :
    readDoubleQuoted out gap .outside p ('"' :: rest)
      = .ok (out.reverse ++ gap.text, ⟨p.right 1, rest⟩) := by
  rw [readDoubleQuoted]
  · simp [isBreak, isBlank, marksDocument_of_pos hpos]
  · rintro _ ⟨⟩

theorem readDoubleQuoted_escape (hpos : 0 < p.column) :
    readDoubleQuoted out gap .outside p ('\\' :: rest)
      = readDoubleQuoted (gap.text.reverse ++ out) .none .begun (p.right 1) rest := by
  rw [readDoubleQuoted]
  · simp [isBreak, isBlank, marksDocument_of_pos hpos]
  · rintro _ ⟨⟩

theorem readDoubleQuoted_letter {letter : Char} (hbreak : isBreak letter = false)
    (h : letterEscape? letter = some c) :
    readDoubleQuoted out gap .begun p (letter :: rest)
      = readDoubleQuoted (c :: out) .none .outside (p.right 1) rest := by
  rw [readDoubleQuoted]
  · simp [hbreak, h]
  · rintro _ rfl
    cases hbreak

theorem readDoubleQuoted_code {letter : Char} {width : Nat} (hbreak : isBreak letter = false)
    (hletter : letterEscape? letter = none) (h : codeLength? letter = some width) :
    readDoubleQuoted out gap .begun p (letter :: rest)
      = readDoubleQuoted out .none (.code 0 width) (p.right 1) rest := by
  rw [readDoubleQuoted]
  · simp [hbreak, hletter, h]
  · rintro _ rfl
    cases hbreak

/-- The escape of a character that has a letter is read as the character. -/
theorem letterEscape?_of_escapeLetter? {letter : Char} (h : escapeLetter? c = some letter) :
    letterEscape? letter = some c ∧ isBreak letter = false := by
  unfold escapeLetter? at h
  split at h <;> cases h
  all_goals decide

theorem hexValue?_upperDigit (n : Nat) :
    hexValue? (Nat.digitChar (n % 16)).toUpper = some (n % 16) := by
  have hdigit : ∀ d < 16, hexValue? (Nat.digitChar d).toUpper = some d := by decide
  exact hdigit _ (Nat.mod_lt _ (by decide))

theorem readDoubleQuoted_digit {value missing d : Nat} (hd : hexValue? c = some d) :
    readDoubleQuoted out gap (.code value (missing + 2)) p (c :: rest)
      = readDoubleQuoted out .none (.code (value * 16 + d) (missing + 1)) (p.right 1) rest := by
  rw [readDoubleQuoted]
  simp [hd]

/-- Digits of a number are read as the number; further ones may come. -/
theorem readDoubleQuoted_digits (width missing value n : Nat) :
    readDoubleQuoted out .none (.code value (width + (missing + 1))) p (upperHex width n ++ rest)
      = readDoubleQuoted out .none (.code (value * Nat.pow 16 width + n % Nat.pow 16 width)
          (missing + 1)) (p.right width) rest := by
  induction width generalizing missing n rest with
  | zero => simp [upperHex, Nat.mod_one, Position.right]
  | succ width ih =>
    have hmissing : width + 1 + (missing + 1) = width + (missing + 1 + 1) := by omega
    have hvalue : (value * Nat.pow 16 width + n / 16 % Nat.pow 16 width) * 16 + n % 16
        = value * Nat.pow 16 (width + 1) + n % Nat.pow 16 (width + 1) := by
      have hpow : Nat.pow 16 (width + 1) = 16 * Nat.pow 16 width := Nat.mul_comm ..
      have hmod : n % (16 * Nat.pow 16 width) = n % 16 + 16 * (n / 16 % Nat.pow 16 width) :=
        Nat.mod_mul
      rw [hpow, hmod, Nat.add_mul, Nat.mul_assoc, Nat.mul_comm (Nat.pow 16 width)]
      omega
    rw [upperHex, List.append_assoc, hmissing, ih, List.singleton_append,
      readDoubleQuoted_digit (hexValue?_upperDigit n), hvalue, Position.right_right]

theorem codeChar?_toNat (c : Char) : codeChar? c.toNat = some c := by
  have hvalid : c.toNat < 0xD800 ∨ 0xDFFF < c.toNat ∧ c.toNat < 0x110000 := c.valid
  rw [codeChar?, if_pos (by omega), Char.ofNat_toNat]

/-- A code point that is written with enough digits is read as its character. -/
theorem readDoubleQuoted_hex {width : Nat} (hn : c.toNat < Nat.pow 16 (width + 1)) :
    readDoubleQuoted out .none (.code 0 (width + 1)) p (upperHex (width + 1) c.toNat ++ rest)
      = readDoubleQuoted (c :: out) .none .outside (p.right (width + 1)) rest := by
  have hvalue : (0 * Nat.pow 16 width + c.toNat / 16 % Nat.pow 16 width) * 16 + c.toNat % 16
      = c.toNat := by
    have hdiv : c.toNat / 16 < Nat.pow 16 width := by
      have hpow : Nat.pow 16 (width + 1) = Nat.pow 16 width * 16 := rfl
      rw [hpow] at hn
      omega
    rw [Nat.mod_eq_of_lt hdiv]
    omega
  rw [upperHex, List.append_assoc, ← Nat.zero_add 1, readDoubleQuoted_digits,
    List.singleton_append, readDoubleQuoted]
  simp only [hexValue?_upperDigit, hvalue]
  simp [codeChar?_toNat, Position.right_right]

/-- Every character is read back. -/
theorem readDoubleQuoted_doubleQuotedChar (hgap : gap.broken = false) (hpos : 0 < p.column) :
    ∃ out' gap' q, 0 < q.column ∧ gap'.broken = false
      ∧ out'.reverse ++ gap'.text = out.reverse ++ gap.text ++ [c]
      ∧ ∀ rest, readDoubleQuoted out gap .outside p (doubleQuotedChar c ++ rest)
        = readDoubleQuoted out' gap' .outside q rest := by
  unfold doubleQuotedChar
  split
  · next hplain =>
    simp only [Bool.and_eq_true, Bool.not_eq_true', bne_iff_ne] at hplain
    obtain ⟨⟨⟨hshown, hbreak⟩, hquote⟩, hescape⟩ := hplain
    by_cases hblank : isBlank c = true
    · obtain rfl := eq_space_of_isBlank hshown hblank
      refine ⟨out, gap.addBlank ' ', p.right 1, Nat.succ_pos _, ?_, ?_,
        fun _ => readDoubleQuoted_blank⟩
      · simp [Gap.addBlank, hgap]
      · simp [Gap.addBlank, Gap.text, hgap]
    · rw [Bool.not_eq_true] at hblank
      refine ⟨c :: gap.text.reverse ++ out, .none, p.right 1, Nat.succ_pos _, rfl, ?_,
        fun _ => readDoubleQuoted_char hbreak hblank hquote hescape hpos⟩
      simp [Gap.text, Gap.none]
  · have htext : (c :: (gap.text.reverse ++ out)).reverse ++ Gap.none.text
        = out.reverse ++ gap.text ++ [c] := by
      simp [Gap.text, Gap.none]
    -- The escapes with digits differ in their letter and in their width alone.
    have hcode {letter : Char} {width : Nat} (hbreak : isBreak letter = false)
        (hletter : letterEscape? letter = none) (hwidth : codeLength? letter = some (width + 1))
        (hn : c.toNat < Nat.pow 16 (width + 1)) (rest : List Char) :
        readDoubleQuoted out gap .outside p
            ('\\' :: letter :: upperHex (width + 1) c.toNat ++ rest)
          = readDoubleQuoted (c :: (gap.text.reverse ++ out)) .none .outside
              (p.right (1 + (1 + (width + 1)))) rest := by
      rw [List.cons_append, List.cons_append, readDoubleQuoted_escape hpos,
        readDoubleQuoted_code hbreak hletter hwidth, readDoubleQuoted_hex hn,
        Position.right_right, Position.right_right]
    split
    · next letter hletter =>
      obtain ⟨hescape, hbreak⟩ := letterEscape?_of_escapeLetter? hletter
      refine ⟨_, _, (p.right 1).right 1, Nat.succ_pos _, rfl, htext, fun rest => ?_⟩
      rw [List.cons_append, List.singleton_append, readDoubleQuoted_escape hpos,
        readDoubleQuoted_letter hbreak hescape]
    · split
      · next hn =>
        exact ⟨_, _, _, Nat.succ_pos _, rfl, htext, hcode rfl rfl rfl (Nat.lt_succ_of_le hn)⟩
      · split
        · next hn =>
          exact ⟨_, _, _, Nat.succ_pos _, rfl, htext, hcode rfl rfl rfl (Nat.lt_succ_of_le hn)⟩
        · have hvalid : c.toNat < 0x110000 := by
            have h : c.toNat < 0xD800 ∨ 0xDFFF < c.toNat ∧ c.toNat < 0x110000 := c.valid
            omega
          have hn : c.toNat < Nat.pow 16 8 := by
            simp only [Nat.pow_eq]
            omega
          exact ⟨_, _, _, Nat.succ_pos _, rfl, htext, hcode rfl rfl rfl hn⟩

/-- A text between double quotes is read back. -/
theorem readDoubleQuoted_append (cs out : List Char) (hgap : gap.broken = false)
    (hpos : 0 < p.column) :
    ∃ q, readDoubleQuoted out gap .outside p (cs.flatMap doubleQuotedChar ++ '"' :: rest)
      = .ok (out.reverse ++ gap.text ++ cs, ⟨q, rest⟩) := by
  induction cs generalizing out gap p with
  | nil =>
    rw [List.append_nil]
    exact ⟨_, readDoubleQuoted_close hpos⟩
  | cons c cs ih =>
    obtain ⟨out', gap', p', hpos', hgap', htext, hchar⟩ :=
      @readDoubleQuoted_doubleQuotedChar c out gap p hgap hpos
    obtain ⟨q, hq⟩ := ih out' hgap' hpos'
    refine ⟨q, ?_⟩
    rw [List.flatMap_cons, List.append_assoc, hchar, hq, htext, List.append_assoc _ [c],
      List.singleton_append]

end DoubleQuoted

end StreamDispatch.Yaml
