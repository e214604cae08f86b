import StreamDispatch.Yaml.Printer
import StreamDispatch.Yaml.Token.Lexer

set_option autoImplicit false

/-! # Texts that stand as they are

A text that may be written as it is, is read back as it is, up to a colon that ends a word or to the
end of its line. -/

namespace StreamDispatch.Yaml

/-! ## Characters that are shown -/

variable {c : Char} {cs t rest out : List Char}

theorem eq_space_of_isBlank (hshown : isShown c = true) (h : isBlank c = true) : c = ' ' := by
  simp only [isBlank, Bool.or_eq_true, beq_iff_eq] at h
  rcases h with rfl | rfl
  · rfl
  · revert hshown
    decide

theorem isAllowed_of_isShown (h : isShown c = true) : isAllowed c = true := by
  have hvalid : c.toNat < 0xD800 ∨ 0xDFFF < c.toNat ∧ c.toNat < 0x110000 := c.valid
  simp only [isShown, Bool.or_eq_true, Bool.and_eq_true, beq_iff_eq, bne_iff_ne,
    decide_eq_true_eq] at h
  simp only [isAllowed, Bool.or_eq_true, Bool.and_eq_true, beq_iff_eq, decide_eq_true_eq]
  omega

theorem endsWord_append (h : endsWord cs = false) : endsWord (cs ++ t) = false := by
  cases cs with
  | nil => cases h
  | cons c cs => exact h

theorem Position.right_right (p : Position) (m n : Nat) :
    (p.right m).right n = p.right (m + n) := by
  simp only [Position.right, Nat.add_assoc]

theorem spaces_succ (n : Nat) : spaces (n + 1) = ' ' :: spaces n := rfl

/-! ## The words of a plain scalar -/

section Plain

variable {indent : Nat} {gap : Gap} {fresh : Bool} {p : Position}

theorem readPlain_blank (hgap : gap.broken = false) :
    readPlain false indent out gap fresh p (' ' :: rest)
      = readPlain false indent out (gap.addBlank ' ') true (p.right 1) rest := by
  rw [readPlain]
  · simp [isBreak, isBlank, hgap]
  · nofun

/-- A character of a word: it is not one that may end the scalar where it stands. -/
theorem readPlain_char (hbreak : isBreak c = false) (hblank : isBlank c = false)
    (hfresh : fresh = true → (out = [] ∨ indent ≤ p.column) ∧ marksDocument p (c :: rest) = false
      ∧ c ≠ '#')
    (hcolon : c = ':' → endsWord rest = false) :
    readPlain false indent out gap fresh p (c :: rest)
      = readPlain false indent (c :: gap.text.reverse ++ out) .none false (p.right 1) rest := by
  have hcolon' : (c == ':' && endsWord rest) = false := by
    by_cases hc : c = ':'
    · simp [hcolon hc]
    · simp [hc]
  rw [readPlain]
  · cases fresh with
    | false => simp [hbreak, hblank, hcolon']
    | true =>
      obtain ⟨hcolumn, hmark, hhash⟩ := hfresh rfl
      have hstay : ¬ (out ≠ [] ∧ p.column < indent) := by
        rintro ⟨hne, hlt⟩
        exact hcolumn.elim hne (Nat.not_le.mpr hlt)
      simp [hbreak, hblank, hcolon', hmark, hhash]
      exact fun hne hlt => absurd ⟨hne, hlt⟩ hstay
  · rintro _ rfl
    cases hbreak

theorem marksDocument_of_pos (h : 0 < p.column) : marksDocument p cs = false := by
  simp [marksDocument, Nat.ne_of_gt h]

/-- Behind its first character a text is read as it is, if no mark in it ends it. -/
theorem readPlain_append {before : Char} (hpos : 0 < p.column) (hindent : indent ≤ p.column)
    (hgap : gap.broken = false) (hshown : ∀ c ∈ cs, isShown c = true)
    (hbreak : ∀ c ∈ cs, isBreak c = false) (hmark : holdsMark before cs = false)
    (hlast : cs.getLast? ≠ some ' ') (hfresh : fresh = true → isGap before = true)
    (hnil : cs = [] → gap = .none ∧ fresh = false) :
    readPlain false indent out gap fresh p (cs ++ t)
      = readPlain false indent ((gap.text ++ cs).reverse ++ out) .none false (p.right cs.length)
          t := by
  induction cs generalizing before gap fresh p out with
  | nil =>
    obtain ⟨rfl, rfl⟩ := hnil rfl
    rfl
  | cons c cs ih =>
    rw [List.forall_mem_cons] at hshown hbreak
    simp only [holdsMark, Bool.or_eq_false_iff] at hmark
    obtain ⟨⟨hcolon, hhash⟩, hmark⟩ := hmark
    have hlast' : cs.getLast? ≠ some ' ' := fun h => hlast (by
      cases cs with
      | nil => cases h
      | cons d cs => rwa [List.getLast?_cons_cons])
    have hright : (p.right 1).right cs.length = p.right (c :: cs).length := by
      rw [Position.right_right, List.length_cons, Nat.add_comm]
    rw [List.cons_append]
    by_cases hblank : isBlank c = true
    · obtain rfl := eq_space_of_isBlank hshown.1 hblank
      have hne : cs ≠ [] := by
        rintro rfl
        exact hlast rfl
      rw [readPlain_blank hgap, ih (Nat.succ_pos _) (Nat.le_succ_of_le hindent) _ hshown.2 hbreak.2
        hmark hlast' (fun _ => rfl) fun h => absurd h hne, hright]
      · simp [Gap.addBlank, Gap.text, hgap]
      · simp [Gap.addBlank, hgap]
    · rw [Bool.not_eq_true] at hblank
      rw [readPlain_char hbreak.1 hblank, ih (Nat.succ_pos _) (Nat.le_succ_of_le hindent) rfl
        hshown.2 hbreak.2 hmark hlast' (fun h => absurd h Bool.false_ne_true) fun _ => ⟨rfl, rfl⟩,
        hright]
      · simp [Gap.text, Gap.none]
      · refine fun h => ⟨.inr hindent, marksDocument_of_pos hpos, ?_⟩
        rintro rfl
        simp [hfresh h] at hhash
      · rintro rfl
        exact endsWord_append (by simpa using hcolon)

/-- What `allowsPlain` asks of a text that is not empty. -/
structure StandsPlain (c : Char) (cs : List Char) : Prop where
  shown : ∀ d ∈ c :: cs, isShown d = true
  oneLine : ∀ d ∈ c :: cs, isBreak d = false
  head : c ≠ ' '
  last : (c :: cs).getLast? ≠ some ' '
  begins : beginsMarked (c :: cs) = false
  holds : holdsMark c cs = false

theorem standsPlain_of_allowsPlain (h : allowsPlain (c :: cs) = true) : StandsPlain c cs := by
  simp only [allowsPlain, Bool.and_eq_true, List.all_eq_true, Bool.not_eq_true', bne_iff_ne] at h
  obtain ⟨⟨⟨⟨⟨hshown, hbreak⟩, hhead⟩, hlast⟩, hbegins⟩, hholds⟩ := h
  exact ⟨hshown, hbreak, hhead, hlast, hbegins, hholds⟩

namespace StandsPlain

theorem notBlank (h : StandsPlain c cs) : isBlank c = false := by
  rw [Bool.eq_false_iff]
  exact fun hblank => h.head (eq_space_of_isBlank (h.shown c List.mem_cons_self) hblank)

theorem notBreak (h : StandsPlain c cs) : isBreak c = false := h.oneLine c List.mem_cons_self

/-- The characters that something other than a plain scalar begins with. -/
def marks : List Char := "#,[]\x7b\x7d&*!|>'\"%@`".toList

theorem beginsMarked_cons (h : beginsMarked (c :: cs) = false) : marks.contains c = false
    ∧ ((c == '?' || c == ':' || c == '-') && endsWord cs) = false := by
  unfold beginsMarked at h
  split at h
  · cases h
  · cases h
  · next heq =>
    cases heq
    exact Bool.or_eq_false_iff.mp h
  · next heq => cases heq

theorem notMark (h : StandsPlain c cs) : c ∉ marks := by
  have hmark := (beginsMarked_cons h.begins).1
  rw [Bool.eq_false_iff, ne_eq, List.contains_iff_mem] at hmark
  exact hmark

theorem ne_of_mem_marks (h : StandsPlain c cs) {d : Char} (hd : d ∈ marks) : c ≠ d := by
  rintro rfl
  exact h.notMark hd

/-- Where one of three characters begins the text, a word goes on after it. -/
theorem notWord (h : StandsPlain c cs) (hc : c = '?' ∨ c = ':' ∨ c = '-') :
    endsWord cs = false := by
  have hword := (beginsMarked_cons h.begins).2
  rcases hc with rfl | rfl | rfl <;> simpa using hword

/-- No text that stands as it is looks like a document marker if a colon follows it. -/
theorem notMarker (h : StandsPlain c cs) : isDocumentMarker (c :: cs ++ ':' :: rest) = false := by
  -- The colon is none of three equal marks, and the text does not begin with three of them.
  have hthree {d : Char} {after : List Char} (hd : d = '-' ∨ d = '.')
      (heq : c :: cs ++ ':' :: rest = d :: d :: d :: after) : False := by
    have hcolon : ':' ≠ d := by rcases hd with rfl | rfl <;> decide
    have hbegins := h.begins
    rcases cs with _ | ⟨a, _ | ⟨b, cs⟩⟩
    · simp [hcolon] at heq
    · simp [hcolon] at heq
    · simp only [List.cons_append, List.cons.injEq] at heq
      obtain ⟨rfl, rfl, rfl, -⟩ := heq
      rcases hd with rfl | rfl <;> cases hbegins
  unfold isDocumentMarker
  split
  · next heq => exact (hthree (.inl rfl) heq).elim
  · next heq => exact (hthree (.inr rfl) heq).elim
  · rfl

/-- A text that stands as it is, is read as it is, as far as what follows it. -/
theorem readPlain (h : StandsPlain c cs) (hindent : indent ≤ p.column + 1)
    (hmarker : p.column = 0 → isDocumentMarker (c :: cs ++ t) = false) :
    readPlain false indent [] .none true p (c :: cs ++ t)
      = readPlain false indent (c :: cs).reverse .none false (p.right (cs.length + 1)) t := by
  have hmark : marksDocument p (c :: (cs ++ t)) = false := by
    unfold marksDocument
    by_cases hp : p.column = 0
    · rw [← List.cons_append, hmarker hp, Bool.and_false]
    · simp [hp]
  have hlast : cs.getLast? ≠ some ' ' := fun hl => h.last (by
    cases cs with
    | nil => cases hl
    | cons d cs => rwa [List.getLast?_cons_cons])
  have hshown := (List.forall_mem_cons.mp h.shown).2
  have hbreak := (List.forall_mem_cons.mp h.oneLine).2
  rw [List.cons_append, readPlain_char h.notBreak h.notBlank, readPlain_append (Nat.succ_pos _)
    hindent rfl hshown hbreak h.holds hlast (fun h => absurd h Bool.false_ne_true)
    fun _ => ⟨rfl, rfl⟩, Position.right_right, Nat.add_comm 1]
  · simp [Gap.text, Gap.none]
  · exact fun _ => ⟨.inl rfl, hmark, h.ne_of_mem_marks (by decide)⟩
  · exact fun hc => endsWord_append (h.notWord (.inr (.inl hc)))

end StandsPlain

/-! ## What ends a plain scalar -/

theorem readPlain_colon (h : endsWord rest = true) :
    readPlain false indent out .none false p (':' :: rest)
      = .ok ⟨out.reverse, false, p, ':' :: rest⟩ := by
  rw [readPlain]
  · simp [isBreak, isBlank, h, Gap.none]
  · nofun

/-- What follows the line of a field: the next key, behind blanks, or nothing. After some fields the
text may also end with an empty line. -/
inductive Tail (mayBeBlank : Bool) : Nat → List Char → List Char → Prop
  | key {column : Nat} {c : Char} {rest : List Char} (hcolumn : column ≤ 2)
    (hblank : isBlank c = false) (hbreak : isBreak c = false) (hcomment : c ≠ '#')
    (hmark : c ≠ '\ufeff') :
    Tail mayBeBlank column (c :: rest) (spaces column ++ c :: rest)
  | done : Tail mayBeBlank 0 [] []
  | blankLine (h : mayBeBlank = true) : Tail mayBeBlank 0 [] ['\n']

theorem readPlain_spaces (hgap : gap.broken = true) (n : Nat) :
    readPlain false indent out gap true p (spaces n ++ rest)
      = readPlain false indent out gap true (p.right n) rest := by
  induction n generalizing p with
  | zero => rfl
  | succ n ih =>
    have hstep : readPlain false indent out gap true p (' ' :: (spaces n ++ rest))
        = readPlain false indent out gap true (p.right 1) (spaces n ++ rest) := by
      rw [readPlain]
      · simp [isBreak, isBlank, hgap, Gap.addBlank]
      · nofun
    rw [spaces_succ, List.cons_append, hstep, ih, Position.right_right, Nat.add_comm 1]

/-- A plain scalar ends with its line, if less is indented behind it. -/
theorem readPlain_line {mayBeBlank : Bool} {column : Nat} {next : List Char} (hindent : 3 ≤ indent)
    (hout : out ≠ []) (h : Tail mayBeBlank column next t) :
    ∃ q, readPlain false indent out .none false p ('\n' :: t) = .ok ⟨out.reverse, true, q, next⟩
      ∧ q.column = column := by
  have hline : readPlain false indent out .none false p ('\n' :: t)
      = readPlain false indent out ⟨[], ['\n'], [], true⟩ true (p.down 1) t := by
    rw [readPlain]
    · rfl
    · nofun
  rw [hline]
  cases h with
  | @key _ c rest hcolumn hblank hbreak _ _ =>
    refine ⟨(p.down 1).right column, ?_, Nat.zero_add _⟩
    have hless : ((p.down 1).right column).column < indent := by
      simp only [Position.right, Position.down]
      omega
    rw [readPlain_spaces rfl, readPlain]
    · simp [hbreak, hblank, hout, hless]
    · rintro _ rfl
      cases hbreak
  | done => exact ⟨p.down 1, rfl, rfl⟩
  | blankLine h => exact ⟨(p.down 1).down 1, rfl, rfl⟩

end Plain

end StreamDispatch.Yaml
