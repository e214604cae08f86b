import Mathlib.Data.List.TakeWhile
import StreamDispatch.Message.Registration
import StreamDispatch.Proofs.Number.Decimal
import StreamDispatch.Proofs.Text.Utf8

set_option autoImplicit false

/-! # Which registration headers name

The version of a message is what its header holds between blanks, if that is a decimal numeral of an
integer of 32 bits. Headers name a registration unless there is a version header with anything else
in it (`ofHeaders_eq_ok_iff`). Registrations are ordered by the bytes of their types and then by
their versions. -/

namespace StreamDispatch

namespace Text

variable {cs raw : List Char}

/-- A text is what remains of another one without the blanks at both ends. -/
structure IsTrimOf (cs raw : List Char) : Prop where
  between : ∃ front back, raw = front ++ cs ++ back
    ∧ (∀ c ∈ front, isBlank c = true) ∧ ∀ c ∈ back, isBlank c = true
  head : ∀ c ∈ cs.head?, isBlank c = false
  last : ∀ c ∈ cs.getLast?, isBlank c = false

theorem dropWhile_append_of_blank {front rest : List Char} (hfront : ∀ c ∈ front, isBlank c = true)
    (hrest : ∀ c ∈ rest.head?, isBlank c = false) : (front ++ rest).dropWhile isBlank = rest := by
  induction front with
  | nil =>
    cases rest with
    | nil => rfl
    | cons c rest => simp [hrest c rfl]
  | cons c front ih =>
    rw [List.forall_mem_cons] at hfront
    simp [hfront.1, ih hfront.2]

theorem isBlank_of_mem_head?_dropWhile {c : Char} (h : c ∈ (raw.dropWhile isBlank).head?) :
    isBlank c = false := by
  have hhead := List.head?_dropWhile_not isBlank raw
  rwa [Option.mem_def.mp h] at hhead

/-- There is one way to trim a text. -/
theorem isTrimOf_iff : IsTrimOf cs raw ↔ trimChars raw = cs := by
  constructor
  · rintro ⟨⟨front, back, rfl, hfront, hback⟩, hhead, hlast⟩
    cases cs with
    | nil =>
      have hblank : ∀ c ∈ front ++ back, isBlank c = true :=
        List.forall_mem_append.mpr ⟨hfront, hback⟩
      rw [List.append_nil, trimChars, List.dropWhile_eq_nil_iff.mpr hblank]
      rfl
    | cons c rest =>
      rw [trimChars, List.append_assoc, dropWhile_append_of_blank hfront (by simpa using hhead),
        List.reverse_append, dropWhile_append_of_blank (by simpa using hback)
          (by rwa [List.head?_reverse]), List.reverse_reverse]
  · rintro rfl
    have hraw : raw.takeWhile isBlank ++ raw.dropWhile isBlank = raw :=
      List.takeWhile_append_dropWhile
    have hblank (cs : List Char) : ∀ c ∈ cs.takeWhile isBlank, isBlank c = true :=
      List.all_eq_true.mp List.all_takeWhile
    -- What is left in front of the blanks at the end.
    have hrest : trimChars raw ++ ((raw.dropWhile isBlank).reverse.takeWhile isBlank).reverse
        = raw.dropWhile isBlank := by
      rw [trimChars, ← List.reverse_append, List.takeWhile_append_dropWhile, List.reverse_reverse]
    refine ⟨⟨raw.takeWhile isBlank, ((raw.dropWhile isBlank).reverse.takeWhile isBlank).reverse,
      by rw [List.append_assoc, hrest, hraw], hblank raw, ?_⟩, fun c hc => ?_, fun c hc => ?_⟩
    · simpa only [List.mem_reverse] using hblank (raw.dropWhile isBlank).reverse
    · have hmem : c ∈ (raw.dropWhile isBlank).head? := by
        rw [← hrest, List.head?_append, Option.mem_def.mp hc]
        rfl
      exact isBlank_of_mem_head?_dropWhile hmem
    · rw [trimChars, List.getLast?_reverse] at hc
      exact isBlank_of_mem_head?_dropWhile hc

end Text

namespace Registration

open Text (IsTrimOf)
open Number (Denotes IntegerError IsFault)

variable {headers : Headers} {a b c r : Registration} {raw : String} {v : Int32}

/-! ## Versions -/

/-- A text is a version: a decimal numeral with blanks around it. -/
def IsVersion (raw : String) (v : Int32) : Prop :=
  ∃ cs, IsTrimOf cs raw.toList ∧ Denotes cs v.toInt

theorem readVersion_eq_ok_iff : readVersion raw = .ok v ↔ IsVersion raw v := by
  simp only [readVersion, Decode.map_eq_ok_iff, Number.readInteger_eq_ok_iff, IsVersion,
    Text.isTrimOf_iff, Nat.pow_eq]
  have hlow := v.le_toInt
  have hhigh := v.toInt_lt
  constructor
  · rintro ⟨z, ⟨hz, hz'⟩, rfl⟩
    refine ⟨_, rfl, ?_⟩
    rwa [Int32.toInt_ofInt_of_le (by omega) (by omega)]
  · rintro ⟨_, rfl, h⟩
    exact ⟨v.toInt, ⟨h, by omega⟩, Int32.ofInt_toInt v⟩

/-! ## Headers -/

/-- The headers of a message name a registration. -/
structure IsNamedBy (r : Registration) (headers : Headers) : Prop where
  messageType : r.messageType = (headers.get? Headers.messageType).getD ""
  version_of_none : headers.get? Headers.messageTypeVersion = none → r.version = 0
  version_of_some : ∀ raw, headers.get? Headers.messageTypeVersion = some raw →
    IsVersion raw r.version

theorem ofHeaders_eq_ok_iff : ofHeaders headers = .ok r ↔ r.IsNamedBy headers := by
  obtain ⟨messageType, version⟩ := r
  cases hv : headers.get? Headers.messageTypeVersion with
  | none =>
    simp only [ofHeaders, hv, pure, Except.pure, Except.ok.injEq, mk.injEq]
    exact ⟨fun ⟨ht, hn⟩ => ⟨ht.symm, fun _ => hn.symm, by simp [hv]⟩,
      fun h => ⟨h.messageType.symm, (h.version_of_none hv).symm⟩⟩
  | some raw =>
    simp only [ofHeaders, hv, Decode.bind_eq_ok_iff, readVersion_eq_ok_iff, pure, Except.pure,
      Except.ok.injEq, mk.injEq]
    constructor
    · rintro ⟨v, hversion, rfl, rfl⟩
      exact ⟨rfl, by simp [hv], fun raw' hraw => by cases hv.symm.trans hraw; exact hversion⟩
    · exact fun h => ⟨version, h.version_of_some raw hv, h.messageType.symm, rfl⟩

/-- Headers name no registration exactly if they have a version that is none. -/
theorem exists_ofHeaders_error_iff : (∃ e, ofHeaders headers = .error e) ↔
    ∃ raw, headers.get? Headers.messageTypeVersion = some raw ∧ ∀ v, ¬IsVersion raw v := by
  cases hv : headers.get? Headers.messageTypeVersion with
  | none => simp [ofHeaders, hv, pure, Except.pure]
  | some raw =>
    simp only [Option.some.injEq, exists_eq_left', ← readVersion_eq_ok_iff]
    cases hr : readVersion raw <;> simp [ofHeaders, hv, hr, bind, Except.bind, pure, Except.pure]

theorem readVersion_eq_error_iff {e : IntegerError} : readVersion raw = .error e ↔
    ∃ cs, IsTrimOf cs raw.toList ∧ IsFault (Nat.pow 2 31) (Nat.pow 2 31 - 1) cs e := by
  simp only [readVersion, Decode.map_eq_error_iff, Number.readInteger_eq_error_iff,
    Text.isTrimOf_iff, exists_eq_left']

/-- What is wrong with headers that name no registration is what is wrong with the version, without
the blanks around it. -/
theorem ofHeaders_eq_error_iff {e : IntegerError} : ofHeaders headers = .error e ↔
    ∃ raw cs, headers.get? Headers.messageTypeVersion = some raw ∧ IsTrimOf cs raw.toList
      ∧ IsFault (Nat.pow 2 31) (Nat.pow 2 31 - 1) cs e := by
  cases hv : headers.get? Headers.messageTypeVersion with
  | none => simp [ofHeaders, hv, pure, Except.pure]
  | some raw =>
    simp only [Option.some.injEq, exists_and_left, exists_eq_left', ← readVersion_eq_error_iff]
    cases hr : readVersion raw <;> simp [ofHeaders, hv, hr, bind, Except.bind, pure, Except.pure]

/-! ## Order -/

theorem before_iff : a.before b = true ↔
    Text.bytes a.messageType < Text.bytes b.messageType
      ∨ a.messageType = b.messageType ∧ a.version < b.version := by
  rw [before, decide_eq_true_iff, Text.lt_iff_bytes_lt]

theorem before_trans (hab : a.before b = true) (hbc : b.before c = true) : a.before c = true := by
  simp only [before, decide_eq_true_eq] at hab hbc ⊢
  rcases hab with hab | ⟨hab, hv⟩
  · rcases hbc with hbc | ⟨hbc, -⟩
    · exact .inl (String.lt_trans hab hbc)
    · exact .inl (hbc ▸ hab)
  · rcases hbc with hbc | ⟨hbc, hv'⟩
    · exact .inl (hab ▸ hbc)
    · exact .inr ⟨hab.trans hbc, Int32.lt_trans hv hv'⟩

theorem not_before_self : ¬a.before a = true := by
  simp [before]

theorem before_asymm (h : a.before b = true) : ¬b.before a = true :=
  fun h' => not_before_self (before_trans h h')

/-- Of two registrations one stands before the other. -/
theorem eq_of_not_before (hab : ¬a.before b = true) (hba : ¬b.before a = true) : a = b := by
  obtain ⟨s, v⟩ := a
  obtain ⟨t, w⟩ := b
  simp only [before, decide_eq_true_eq, not_or, not_and] at hab hba
  obtain rfl : s = t := String.le_antisymm (String.not_lt.mp hba.1) (String.not_lt.mp hab.1)
  have hv := hab.2 rfl
  have hw := hba.2 rfl
  rw [Int32.lt_iff_toInt_lt] at hv hw
  rw [Int32.toInt_inj.mp (Int.le_antisymm (Int.not_lt.mp hw) (Int.not_lt.mp hv))]

theorem not_before_trans (hba : b.before a = false) (hcb : c.before b = false) :
    c.before a = false := by
  by_contra hca
  by_cases hbc : b.before c = true
  · exact Bool.false_ne_true (hba.symm.trans (before_trans hbc (by simpa using hca)))
  · obtain rfl : b = c := eq_of_not_before hbc (by simpa using hcb)
    exact hca hba

end Registration

end StreamDispatch
