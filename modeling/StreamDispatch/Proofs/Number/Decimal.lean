import StreamDispatch.Number.Integer
import StreamDispatch.Proofs.Decode.Record

set_option autoImplicit false

/-! # Decimal numerals

A numeral is a sign, which may be missing, and at least one ASCII digit. A text is read as an
integer exactly when it is a numeral of that integer and the integer is within the bounds
(`readInteger_eq_ok_iff`).

The reader looks at the bound after each digit, and so it may stop before it has seen all digits.
That changes nothing but the error, since what a front of a numeral denotes never exceeds what the
whole of it denotes: the error says that a numeral at the front has left the bounds, and whether
anything follows it is not seen (`readInteger_eq_error_iff`). -/

namespace StreamDispatch.Number

variable {limit value n : Nat} {overflow : IntegerError} {cs : List Char}

/-! ## Digits -/

/-- At least one character, and nothing but ASCII digits. -/
structure IsDigits (cs : List Char) : Prop where
  nonempty : cs ≠ []
  digits : ∀ c ∈ cs, '0' ≤ c ∧ c ≤ '9'

theorem digitValue?_eq_some_iff {c : Char} {d : Nat} :
    digitValue? c = some d ↔ ('0' ≤ c ∧ c ≤ '9') ∧ c.toNat - '0'.toNat = d := by
  unfold digitValue?
  split
  · next h => simp [h]
  · next h => simp [h]

/-- A magnitude does not shrink when digits are appended to it. -/
theorem le_ofDigitChars (value : Nat) (cs : List Char) : value ≤ Nat.ofDigitChars 10 cs value := by
  induction cs generalizing value with
  | nil => exact Nat.le_refl value
  | cons c rest ih =>
    rw [Nat.ofDigitChars_cons]
    have hrest := ih (10 * value + (c.toNat - '0'.toNat))
    omega

/-- Digits are appended to a magnitude if there is nothing else among them and the result keeps
within the limit. -/
theorem readMagnitude_eq_ok_iff (hvalue : value ≤ limit) :
    readMagnitude limit overflow value cs = .ok n ↔
      (∀ c ∈ cs, '0' ≤ c ∧ c ≤ '9') ∧ Nat.ofDigitChars 10 cs value = n ∧ n ≤ limit := by
  induction cs generalizing value with
  | nil =>
    simp only [readMagnitude, Except.ok.injEq, List.not_mem_nil, false_implies, implies_true,
      true_and, Nat.ofDigitChars_nil]
    omega
  | cons c rest ih =>
    rw [List.forall_mem_cons, Nat.ofDigitChars_cons, readMagnitude]
    cases hd : digitValue? c with
    | none =>
      have hc : ¬('0' ≤ c ∧ c ≤ '9') := fun hc => by simp [digitValue?, hc] at hd
      simp [hc]
    | some d =>
      obtain ⟨hc, rfl⟩ := digitValue?_eq_some_iff.mp hd
      rw [Nat.mul_comm 10 value]
      simp only [hc, and_self, true_and]
      split
      · next hle => exact ih hle
      · next hgt =>
        have hle := le_ofDigitChars (value * 10 + (c.toNat - '0'.toNat)) rest
        constructor
        · intro h
          cases h
        · rintro ⟨-, rfl, hlimit⟩
          omega

/-! ## Numerals -/

/-- A text is a decimal numeral of an integer. -/
inductive Denotes : List Char → Int → Prop
  | plain {cs : List Char} (h : IsDigits cs) : Denotes cs (Nat.ofDigitChars 10 cs 0)
  | plus {cs : List Char} (h : IsDigits cs) : Denotes ('+' :: cs) (Nat.ofDigitChars 10 cs 0)
  | minus {cs : List Char} (h : IsDigits cs) :
      Denotes ('-' :: cs) (-(Nat.ofDigitChars 10 cs 0 : Int))

theorem not_isDigits_cons {c : Char} (hc : ¬('0' ≤ c ∧ c ≤ '9')) : ¬IsDigits (c :: cs) :=
  fun h => hc (h.digits c List.mem_cons_self)

/-- Digits are read as what they denote, within a limit. -/
theorem readMagnitude_zero_eq_ok_iff (hcs : cs ≠ []) :
    readMagnitude limit overflow 0 cs = .ok n ↔
      IsDigits cs ∧ Nat.ofDigitChars 10 cs 0 = n ∧ n ≤ limit := by
  rw [readMagnitude_eq_ok_iff (Nat.zero_le limit)]
  exact ⟨fun ⟨h, hn⟩ => ⟨⟨hcs, h⟩, hn⟩, fun ⟨h, hn⟩ => ⟨h.digits, hn⟩⟩

theorem denotes_plus_iff {z : Int} :
    Denotes ('+' :: cs) z ↔ IsDigits cs ∧ z = Nat.ofDigitChars 10 cs 0 := by
  constructor
  · rintro (h | h | h)
    · exact absurd h (not_isDigits_cons (by decide))
    · exact ⟨h, rfl⟩
  · rintro ⟨h, rfl⟩
    exact .plus h

theorem denotes_minus_iff {z : Int} :
    Denotes ('-' :: cs) z ↔ IsDigits cs ∧ z = -(Nat.ofDigitChars 10 cs 0 : Int) := by
  constructor
  · rintro (h | h | h)
    · exact absurd h (not_isDigits_cons (by decide))
    · exact ⟨h, rfl⟩
  · rintro ⟨h, rfl⟩
    exact .minus h

theorem denotes_iff_of_unsigned {z : Int} (hplus : ∀ rest, cs ≠ '+' :: rest)
    (hminus : ∀ rest, cs ≠ '-' :: rest) :
    Denotes cs z ↔ IsDigits cs ∧ z = Nat.ofDigitChars 10 cs 0 := by
  constructor
  · rintro (h | h | h)
    · exact ⟨h, rfl⟩
    · exact absurd rfl (hplus _)
    · exact absurd rfl (hminus _)
  · rintro ⟨h, rfl⟩
    exact .plain h

/-- What is read is what the text denotes, and it keeps within the bounds. -/
theorem readInteger_eq_ok_iff {below above : Nat} {z : Int} :
    readInteger below above cs = .ok z ↔ Denotes cs z ∧ -(below : Int) ≤ z ∧ z ≤ above := by
  have hnil : ¬IsDigits [] := fun h => h.nonempty rfl
  have hunsigned {cs : List Char} (hcs : cs ≠ []) :
      (readMagnitude above .tooLarge 0 cs).map Int.ofNat = .ok z ↔
        (IsDigits cs ∧ z = Nat.ofDigitChars 10 cs 0) ∧ -(below : Int) ≤ z ∧ z ≤ above := by
    simp only [Decode.map_eq_ok_iff, readMagnitude_zero_eq_ok_iff hcs]
    constructor
    · rintro ⟨n, ⟨h, rfl, hn⟩, rfl⟩
      exact ⟨⟨h, rfl⟩, by simp only [Int.ofNat_eq_natCast]; omega⟩
    · rintro ⟨⟨h, rfl⟩, -, hn⟩
      exact ⟨_, ⟨h, rfl, by omega⟩, rfl⟩
  fun_cases readInteger below above cs with
  | case1 => exact ⟨nofun, fun ⟨h, _⟩ => by cases h with | plain h => exact absurd h hnil⟩
  | case2 => simp [denotes_plus_iff, hnil]
  | case3 => simp [denotes_minus_iff, hnil]
  | case4 digits hne => rw [denotes_plus_iff, hunsigned fun h => hne h]
  | case5 digits hne =>
    rw [denotes_minus_iff]
    simp only [Decode.map_eq_ok_iff, readMagnitude_zero_eq_ok_iff fun h => hne h]
    constructor
    · rintro ⟨n, ⟨h, rfl, hn⟩, rfl⟩
      exact ⟨⟨h, rfl⟩, by simp only [Int.ofNat_eq_natCast]; omega⟩
    · rintro ⟨⟨h, rfl⟩, hn, -⟩
      exact ⟨_, ⟨h, rfl, by omega⟩, rfl⟩
  | case6 _ hnonempty _ _ hplus hminus =>
    rw [denotes_iff_of_unsigned hplus hminus, hunsigned hnonempty]

/-! ## Errors -/

/-- The digits at some front of the characters take a magnitude beyond the limit. -/
def Exceeds (limit value : Nat) (cs : List Char) : Prop :=
  ∃ front, front <+: cs ∧ (∀ c ∈ front, '0' ≤ c ∧ c ≤ '9')
    ∧ limit < Nat.ofDigitChars 10 front value

theorem exceeds_of_lt (h : limit < value) : Exceeds limit value cs :=
  ⟨[], List.nil_prefix, nofun, by simpa using h⟩

theorem not_exceeds_nil (h : value ≤ limit) : ¬Exceeds limit value [] := by
  rintro ⟨front, hfront, -, hlt⟩
  rw [List.prefix_nil.mp hfront, Nat.ofDigitChars_nil] at hlt
  omega

theorem exceeds_cons {c : Char} {rest : List Char} (hvalue : value ≤ limit) :
    Exceeds limit value (c :: rest) ↔
      ('0' ≤ c ∧ c ≤ '9') ∧ Exceeds limit (10 * value + (c.toNat - '0'.toNat)) rest := by
  constructor
  · rintro ⟨front, hfront, hdigits, hlt⟩
    cases front with
    | nil =>
      rw [Nat.ofDigitChars_nil] at hlt
      omega
    | cons d front =>
      obtain ⟨rfl, hrest⟩ := List.cons_prefix_cons.mp hfront
      rw [List.forall_mem_cons] at hdigits
      rw [Nat.ofDigitChars_cons] at hlt
      exact ⟨hdigits.1, front, hrest, hdigits.2, hlt⟩
  · rintro ⟨hc, front, hfront, hdigits, hlt⟩
    refine ⟨c :: front, List.cons_prefix_cons.mpr ⟨rfl, hfront⟩,
      List.forall_mem_cons.mpr ⟨hc, hdigits⟩, ?_⟩
    rwa [Nat.ofDigitChars_cons]

/-- Appending digits fails at the first of them that takes the magnitude beyond the limit, and at
the first character that is no digit if that comes before. -/
theorem readMagnitude_eq_error_iff {e : IntegerError} (hvalue : value ≤ limit) :
    readMagnitude limit overflow value cs = .error e ↔
      Exceeds limit value cs ∧ e = overflow
        ∨ ¬Exceeds limit value cs ∧ (¬∀ c ∈ cs, '0' ≤ c ∧ c ≤ '9') ∧ e = .invalidDigit := by
  induction cs generalizing value with
  | nil => simp [readMagnitude, not_exceeds_nil hvalue]
  | cons c rest ih =>
    rw [exceeds_cons hvalue, List.forall_mem_cons, readMagnitude]
    cases hd : digitValue? c with
    | none =>
      have hc : ¬('0' ≤ c ∧ c ≤ '9') := fun hc => by simp [digitValue?, hc] at hd
      simp [hc, eq_comm]
    | some d =>
      obtain ⟨hc, rfl⟩ := digitValue?_eq_some_iff.mp hd
      rw [Nat.mul_comm 10 value]
      simp only [hc, and_self, true_and]
      split
      · next hle => exact ih hle
      · next hgt =>
        have hexceeds : Exceeds limit (value * 10 + (c.toNat - '0'.toNat)) rest :=
          exceeds_of_lt (Nat.not_le.mp hgt)
        simp only [hexceeds, true_and, not_true_eq_false, false_and, or_false, Except.error.injEq]
        exact eq_comm

/-- The text begins with a numeral of an integer of some kind. -/
def Begins (cs : List Char) (P : Int → Prop) : Prop :=
  ∃ front z, front <+: cs ∧ Denotes front z ∧ P z

/-- What is wrong with a text that is no integer within the bounds: nothing is there, a numeral at
its front has left the bounds, or none of both. -/
def IsFault (below above : Nat) (cs : List Char) : IntegerError → Prop
  | .empty => cs = []
  | .tooLarge => Begins cs fun z => above < z
  | .tooSmall => Begins cs fun z => z < -below
  | .invalidDigit => cs ≠ [] ∧ (∀ z, ¬Denotes cs z)
      ∧ ¬(Begins cs fun z => above < z) ∧ ¬Begins cs fun z => z < -below

variable {below above : Nat} {e : IntegerError} {ds : List Char} {sign : Nat → Int}

/-- A text is a sign, which may be missing, and what should be digits. -/
structure IsSigned (sign : Nat → Int) (cs ds : List Char) : Prop where
  denotes : ∀ z, Denotes cs z ↔ IsDigits ds ∧ z = sign (Nat.ofDigitChars 10 ds 0)
  begins : ∀ P, Begins cs P ↔
    ∃ front, front <+: ds ∧ IsDigits front ∧ P (sign (Nat.ofDigitChars 10 front 0))

theorem not_denotes_nil {z : Int} : ¬Denotes [] z := by
  rintro (h | h | h)
  exact h.nonempty rfl

theorem isSigned_cons {c : Char}
    (hsign : ∀ cs z, Denotes (c :: cs) z ↔ IsDigits cs ∧ z = sign (Nat.ofDigitChars 10 cs 0)) :
    IsSigned sign (c :: cs) cs := by
  refine ⟨hsign cs, fun P => ⟨?_, ?_⟩⟩
  · rintro ⟨front, z, hfront, hz, hP⟩
    cases front with
    | nil => exact absurd hz not_denotes_nil
    | cons d front =>
      obtain ⟨rfl, hrest⟩ := List.cons_prefix_cons.mp hfront
      obtain ⟨hdigits, rfl⟩ := (hsign front z).mp hz
      exact ⟨front, hrest, hdigits, hP⟩
  · rintro ⟨front, hfront, hdigits, hP⟩
    exact ⟨c :: front, _, List.cons_prefix_cons.mpr ⟨rfl, hfront⟩,
      (hsign front _).mpr ⟨hdigits, rfl⟩, hP⟩

theorem isSigned_of_unsigned (hplus : ∀ rest, cs ≠ '+' :: rest)
    (hminus : ∀ rest, cs ≠ '-' :: rest) : IsSigned Int.ofNat cs cs := by
  refine ⟨fun z => denotes_iff_of_unsigned hplus hminus, fun P => ⟨?_, ?_⟩⟩
  · rintro ⟨front, z, ⟨back, rfl⟩, hz, hP⟩
    have hunsigned {c : Char} (h : ∀ rest, front ++ back ≠ c :: rest) (rest : List Char) :
        front ≠ c :: rest := fun heq => h (rest ++ back) (by rw [heq]; rfl)
    obtain ⟨hdigits, rfl⟩ :=
      (denotes_iff_of_unsigned (hunsigned hplus) (hunsigned hminus)).mp hz
    exact ⟨front, ⟨back, rfl⟩, hdigits, hP⟩
  · rintro ⟨front, hfront, hdigits, hP⟩
    exact ⟨front, _, hfront, .plain hdigits, hP⟩

/-- The numeral at the front that leaves the bounds is one whose digits exceed the limit. -/
theorem IsSigned.begins_iff_exceeds (h : IsSigned sign cs ds) {P : Int → Prop}
    (hP : ∀ n, P (sign n) ↔ limit < n) : Begins cs P ↔ Exceeds limit 0 ds := by
  rw [h.begins]
  simp only [hP]
  constructor
  · rintro ⟨front, hfront, hdigits, hlt⟩
    exact ⟨front, hfront, hdigits.digits, hlt⟩
  · rintro ⟨front, hfront, hdigits, hlt⟩
    refine ⟨front, hfront, ⟨?_, hdigits⟩, hlt⟩
    rintro rfl
    exact Nat.not_lt_zero _ hlt

theorem IsSigned.not_begins (h : IsSigned sign cs ds) {P : Int → Prop} (hP : ∀ n, ¬P (sign n)) :
    ¬Begins cs P := by
  rw [h.begins]
  rintro ⟨front, -, -, hfront⟩
  exact hP _ hfront

theorem IsSigned.isDigits_iff (h : IsSigned sign cs ds) (hds : ds ≠ []) :
    (∀ z, ¬Denotes cs z) ↔ ¬∀ c ∈ ds, '0' ≤ c ∧ c ≤ '9' := by
  simp only [h.denotes, not_and]
  exact ⟨fun hz hall => hz _ ⟨hds, hall⟩ rfl, fun hall _ hdigits => absurd hdigits.digits hall⟩

theorem IsSigned.isFault_iff_of_nil (h : IsSigned sign cs []) (hcs : cs ≠ []) :
    IsFault below above cs e ↔ e = .invalidDigit := by
  have hnone : ¬IsDigits [] := fun h => h.nonempty rfl
  have hbegins {P : Int → Prop} : ¬Begins cs P := by
    rw [h.begins]
    rintro ⟨front, hfront, hdigits, -⟩
    exact hnone (List.prefix_nil.mp hfront ▸ hdigits)
  cases e <;> simp [IsFault, hbegins, hcs, h.denotes, hnone]

theorem isFault_iff_of_nonneg (h : IsSigned Int.ofNat cs ds) (hcs : cs ≠ []) (hds : ds ≠ []) :
    (readMagnitude above .tooLarge 0 ds).map Int.ofNat = .error e ↔ IsFault below above cs e := by
  have hlarge : (Begins cs fun z => above < z) ↔ Exceeds above 0 ds :=
    h.begins_iff_exceeds fun n => by simp
  have hsmall : ¬Begins cs fun z => z < -(below : Int) :=
    h.not_begins fun n => by simp only [Int.ofNat_eq_natCast]; omega
  rw [Decode.map_eq_error_iff, readMagnitude_eq_error_iff (Nat.zero_le above)]
  cases e <;> simp [IsFault, hlarge, hsmall, h.isDigits_iff hds, hcs, and_comm]

theorem isFault_iff_of_neg (h : IsSigned (fun n => -Int.ofNat n) cs ds) (hcs : cs ≠ [])
    (hds : ds ≠ []) : (readMagnitude below .tooSmall 0 ds).map (fun n => -Int.ofNat n) = .error e ↔
      IsFault below above cs e := by
  have hsmall : (Begins cs fun z => z < -(below : Int)) ↔ Exceeds below 0 ds :=
    h.begins_iff_exceeds fun n => by simp only [Int.ofNat_eq_natCast]; omega
  have hlarge : ¬Begins cs fun z => above < z :=
    h.not_begins fun n => by simp only [Int.ofNat_eq_natCast]; omega
  rw [Decode.map_eq_error_iff, readMagnitude_eq_error_iff (Nat.zero_le below)]
  cases e <;> simp [IsFault, hlarge, hsmall, h.isDigits_iff hds, hcs, and_comm]

/-- Why a text is not read. -/
theorem readInteger_eq_error_iff :
    readInteger below above cs = .error e ↔ IsFault below above cs e := by
  have hplus (ds : List Char) : IsSigned Int.ofNat ('+' :: ds) ds :=
    isSigned_cons fun _ _ => denotes_plus_iff
  have hminus (ds : List Char) : IsSigned (fun n => -Int.ofNat n) ('-' :: ds) ds :=
    isSigned_cons fun _ _ => denotes_minus_iff
  fun_cases readInteger below above cs with
  | case1 =>
    have hbegins {P : Int → Prop} : ¬Begins [] P := by
      rintro ⟨front, z, hfront, hz, -⟩
      exact not_denotes_nil (List.prefix_nil.mp hfront ▸ hz)
    cases e <;> simp [IsFault, hbegins]
  | case2 => rw [(hplus []).isFault_iff_of_nil (List.cons_ne_nil _ _), Except.error.injEq, eq_comm]
  | case3 => rw [(hminus []).isFault_iff_of_nil (List.cons_ne_nil _ _), Except.error.injEq, eq_comm]
  | case4 digits hne =>
    exact isFault_iff_of_nonneg (hplus digits) (List.cons_ne_nil _ _) fun h => hne h
  | case5 digits hne =>
    exact isFault_iff_of_neg (hminus digits) (List.cons_ne_nil _ _) fun h => hne h
  | case6 _ hnonempty _ _ hplus hminus =>
    exact isFault_iff_of_nonneg (isSigned_of_unsigned hplus hminus) hnonempty hnonempty

/-! ## Written integers -/

theorem isDigit_of_mem_toDigits {c : Char} (h : c ∈ Nat.toDigits 10 n) : c.isDigit = true :=
  Nat.isDigit_of_mem_toDigits (by decide) (by decide) h

/-- No number but zero begins with a zero. -/
theorem eq_zero_of_head?_toDigits (h : (Nat.toDigits 10 n).head? = some '0') : n = 0 := by
  induction n using Nat.strongRecOn with
  | ind n ih =>
    rcases Nat.lt_or_ge n 10 with hlt | hge
    · rw [Nat.toDigits_of_lt_base hlt] at h
      exact Nat.digitChar_eq_zero.mp (Option.some.inj h)
    · obtain ⟨c, cs, hcs⟩ :=
        List.exists_cons_of_ne_nil (Nat.toDigits_ne_nil (n := n / 10) (b := 10))
      rw [Nat.toDigits_of_base_le (by decide) hge, hcs, List.cons_append, List.head?_cons] at h
      have hzero := ih (n / 10) (by omega) (hcs ▸ h)
      omega

theorem eq_nil_of_toDigits (h : Nat.toDigits 10 n = '0' :: cs) : cs = [] := by
  have hn := eq_zero_of_head?_toDigits (n := n) (by rw [h]; rfl)
  rw [hn, Nat.toDigits_zero] at h
  exact (List.cons.inj h).2.symm

/-- The digits of an integer, behind a hyphen if it is negative. -/
theorem toList_toString (n : Int) :
    (∃ m : Nat, n = m ∧ (toString n).toList = Nat.toDigits 10 m)
      ∨ ∃ m : Nat, n = -m ∧ (toString n).toList = '-' :: Nat.toDigits 10 m := by
  cases n with
  | ofNat m => exact .inl ⟨m, rfl, Nat.toList_repr⟩
  | negSucc m =>
    refine .inr ⟨m + 1, rfl, ?_⟩
    show ("-" ++ Nat.repr (m + 1)).toList = _
    rw [String.toList_append, Nat.toList_repr]
    rfl

/-- The first character of an integer. -/
theorem exists_head_toString (n : Int) :
    ∃ c cs, (toString n).toList = c :: cs ∧ (c = '-' ∨ c.isDigit = true) := by
  obtain ⟨m, -, hchars⟩ | ⟨m, -, hchars⟩ := toList_toString n
  · obtain ⟨c, cs, hcs⟩ := List.exists_cons_of_ne_nil (Nat.toDigits_ne_nil (n := m) (b := 10))
    have hc : c.isDigit = true := isDigit_of_mem_toDigits (n := m) (hcs ▸ List.mem_cons_self)
    exact ⟨c, cs, hchars.trans hcs, .inr hc⟩
  · exact ⟨'-', _, hchars, .inl rfl⟩

theorem isDigits_toDigits (n : Nat) : IsDigits (Nat.toDigits 10 n) := by
  refine ⟨Nat.toDigits_ne_nil, fun c hc => ?_⟩
  have hdigit := isDigit_of_mem_toDigits hc
  simp only [Char.isDigit, Bool.and_eq_true, decide_eq_true_eq] at hdigit
  exact hdigit

/-- What is written for an integer is a numeral of it. -/
theorem denotes_toString (n : Int) : Denotes (toString n).toList n := by
  have hvalue (m : Nat) : Nat.ofDigitChars 10 (Nat.toDigits 10 m) 0 = m :=
    Nat.ofDigitChars_toDigits (by decide) (by decide)
  obtain ⟨m, rfl, hchars⟩ | ⟨m, rfl, hchars⟩ := toList_toString n
  · rw [hchars]
    have h := Denotes.plain (isDigits_toDigits m)
    rwa [hvalue] at h
  · rw [hchars]
    have h := Denotes.minus (isDigits_toDigits m)
    rwa [hvalue] at h

end StreamDispatch.Number
