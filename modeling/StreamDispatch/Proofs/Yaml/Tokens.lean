import StreamDispatch.Proofs.Yaml.Lexing
import StreamDispatch.Proofs.Yaml.Meaning

set_option autoImplicit false

/-! # The tokens of a sheet

A sheet is read as the tokens of a block mapping of block mappings. This is shown field by field and
section by section; what a field needs of the text behind it is that less is indented there
(`Tail`). -/

namespace StreamDispatch.Yaml

/-- Whether a text is written as it is. -/
def isWrittenPlain (s : String) : Bool :=
  !s.toList.contains '\n' && (!isAmbiguous s && allowsPlain s.toList)

/-- Whether a value stands without quotes. -/
def Cell.isPlain : Cell → Bool
  | .text s => isWrittenPlain s
  | _ => true

/-- The text that is read where a value is written. -/
def Cell.written : Cell → String
  | .text s => s
  | .integer n => toString n
  | .bool b => if b then "true" else "false"

/-- Whether a value is one that a document can hold. -/
def Cell.isLegible : Cell → Bool
  | .integer n => fitsWord 64 n
  | _ => true

def Cell.token (cell : Cell) : Token := .scalar cell.isPlain cell.written

/-- Whether an empty line behind a value says nothing about it. It may belong to a literal block. -/
def Cell.mayBeBlank : Cell → Bool
  | .text _ => false
  | _ => true

def fieldTokens (f : String × Cell) : List Token := [.key, .scalar true f.1, .value, f.2.token]

def sectionTokens (section_ : String × List (String × Cell)) : List Token :=
  [.key, .scalar true section_.1, .value, .blockMappingStart] ++ section_.2.flatMap fieldTokens
    ++ [.blockEnd]

def Sheet.tokens (s : Sheet) : List Token :=
  .blockMappingStart :: s.flatMap sectionTokens ++ [.blockEnd]

/-- A name that stands as it is, and is short enough for a key. -/
def isPlainName (name : String) : Bool :=
  !isAmbiguous name && allowsPlain name.toList && decide (name.toList.length ≤ 1024)

/-- What a section must be for its text to be read back. -/
structure IsReadableSection (e : String × List (String × Cell)) : Prop where
  name : isPlainName e.1 = true
  nonempty : e.2 ≠ []
  names : ∀ f ∈ e.2, isPlainName f.1 = true
  distinct : (e.2.map Prod.fst).Nodup
  legible : ∀ f ∈ e.2, f.2.isLegible = true

/-- Whether an empty line behind the last field of a section says nothing about it. -/
def lastMayBeBlank (fields : List (String × Cell)) : Bool := fields.getLast?.any (·.2.mayBeBlank)

def Sheet.mayBeBlank (s : Sheet) : Bool := s.getLast?.any (lastMayBeBlank ·.2)

/-- What a sheet must be for its text to be read back. -/
structure Sheet.IsReadable (s : Sheet) : Prop where
  nonempty : s ≠ []
  sections : ∀ e ∈ s, IsReadableSection e
  distinct : (s.map Prod.fst).Nodup

/-- A name as the characters that the lexer tells a key by. -/
structure StandsAsKey (name : String) (c : Char) (cs : List Char) : Prop where
  chars : name.toList = c :: cs
  plain : StandsPlain c cs
  short : cs.length < 1024

theorem ne_empty_of_not_ambiguous {s : String} (h : isAmbiguous s = false) : s.toList ≠ [] := by
  intro hnil
  have hempty : s = "" := String.toList_inj.mp hnil
  rw [hempty] at h
  revert h
  decide

theorem exists_standsAsKey {name : String} (h : isPlainName name = true) :
    ∃ c cs, StandsAsKey name c cs := by
  simp only [isPlainName, Bool.and_eq_true, Bool.not_eq_true', decide_eq_true_eq] at h
  obtain ⟨⟨hambiguous, hplain⟩, hshort⟩ := h
  obtain ⟨c, cs, hchars⟩ := List.exists_cons_of_ne_nil (ne_empty_of_not_ambiguous hambiguous)
  rw [hchars] at hplain hshort
  exact ⟨c, cs, hchars, standsPlain_of_allowsPlain hplain, hshort⟩

/-- A text that stands as it is, is found behind its indentation. -/
theorem StandsPlain.tail {c : Char} {cs rest : List Char} {column : Nat} (h : StandsPlain c cs)
    (mayBeBlank : Bool) (hcolumn : column ≤ 2) :
    Tail mayBeBlank column (c :: (cs ++ rest)) (spaces column ++ c :: (cs ++ rest)) :=
  .key hcolumn h.notBlank h.notBreak (h.ne_of_mem_marks (by decide))
    (ne_of_isShown (h.shown c List.mem_cons_self) rfl)

namespace Lexer

variable {s : Lexer} {p : Position} {t next : List Char} {tokens : List Token} {blocks : List Nat}
  {column : Nat}

/-! ## Fields -/

theorem leads_plainText {mayBeBlank : Bool} (text : String) (hpos : 2 < p.column)
    (h : allowsPlain text.toList = true) (hne : text.toList ≠ [])
    (ht : Tail mayBeBlank column next t) :
    ∃ s', Leads (between ⟨p, ' ' :: (text.toList ++ ['\n'] ++ t)⟩ tokens [2, 0] false) s'
      ∧ s'.Arrives (tokens ++ [.scalar true text]) [2, 0] column next := by
  obtain ⟨c, cs, hcs⟩ := List.exists_cons_of_ne_nil hne
  rw [hcs] at h
  have hchars : text.toList ++ ['\n'] ++ t = c :: cs ++ '\n' :: t := by
    rw [hcs, List.append_assoc, List.singleton_append]
  have hname : text = String.ofList (c :: cs) := by rw [← hcs, String.ofList_toList]
  rw [hchars, hname]
  exact leads_plain hpos (standsPlain_of_allowsPlain h) ht

theorem leads_doubleQuoted {mayBeBlank : Bool} {text : String} (hpos : 2 < p.column)
    (ht : Tail mayBeBlank column next t) :
    ∃ s', Leads (between ⟨p, ' ' :: ('"' :: text.toList.flatMap doubleQuotedChar ++ ['"', '\n']
        ++ t)⟩ tokens [2, 0] false) s'
      ∧ s'.Arrives (tokens ++ [.scalar false text]) [2, 0] column next := by
  have hchars : '"' :: text.toList.flatMap doubleQuotedChar ++ ['"', '\n'] ++ t
      = '"' :: (text.toList.flatMap doubleQuotedChar ++ '"' :: '\n' :: t) := by simp
  obtain ⟨q, hread⟩ : ∃ q, readDoubleQuoted [] .none .outside ((p.right 1).right 1)
      (text.toList.flatMap doubleQuotedChar ++ '"' :: '\n' :: t)
        = .ok (text.toList, ⟨q, '\n' :: t⟩) :=
    readDoubleQuoted_append text.toList [] rfl (Nat.succ_pos _)
  rw [hchars]
  exact leads_quoted hpos (.inr rfl) (fun _ _ => scanToken_doubleQuote) hread ht

theorem leads_singleQuoted {mayBeBlank : Bool} {text : String} (hpos : 2 < p.column)
    (h : allowsSingleQuotes text.toList = true) (hline : '\n' ∉ text.toList)
    (ht : Tail mayBeBlank column next t) :
    ∃ s', Leads (between ⟨p, ' ' :: ('\'' :: singleQuotedChars 4 false text.toList
        ++ ['\'', '\n'] ++ t)⟩ tokens [2, 0] false) s'
      ∧ s'.Arrives (tokens ++ [.scalar false text]) [2, 0] column next := by
  simp only [allowsSingleQuotes, Bool.and_eq_true, List.all_eq_true, Bool.not_eq_true'] at h
  have hchars : '\'' :: singleQuotedChars 4 false text.toList ++ ['\'', '\n'] ++ t
      = '\'' :: (singleQuotedChars 4 false text.toList ++ '\'' :: '\n' :: t) := by simp
  obtain ⟨q, hread⟩ : ∃ q, readSingleQuoted [] .none ((p.right 1).right 1)
      (singleQuotedChars 4 false text.toList ++ '\'' :: '\n' :: t)
        = .ok (text.toList, ⟨q, '\n' :: t⟩) :=
    readSingleQuoted_append [] _ (Nat.succ_pos 3) ⟨h.1.1, hline, h.1.2, h.2⟩
      (.nil (Nat.succ_pos _)) nofun
  rw [hchars]
  exact leads_quoted hpos (.inl rfl) (fun _ _ => scanToken_singleQuote) hread ht

theorem leads_literal {text : String} (hpos : 2 < p.column) (h : allowsBlock text.toList = true)
    (hne : text.toList ≠ []) (ht : Tail false column next t) :
    ∃ s', Leads (between ⟨p, ' ' :: ('|' :: literalHeader text.toList
        ++ '\n' :: literalLines 4 true text.toList ++ t)⟩ tokens [2, 0] false) s'
      ∧ s'.Arrives (tokens ++ [.scalar false text]) [2, 0] column next := by
  simp only [allowsBlock, Bool.and_eq_true, List.all_eq_true] at h
  have hchars : '|' :: literalHeader text.toList ++ '\n' :: literalLines 4 true text.toList ++ t
      = '|' :: (literalHeader text.toList ++ '\n' :: (literalLines 4 true text.toList ++ t)) := by
    simp
  obtain ⟨q, hread, hcolumn⟩ := readBlockScalar_literal ((p.right 1).right 1) h.1.1 hne ht
  rw [hchars]
  exact leads_block hpos hread hcolumn ht (by simp; omega)

/-- Every value is read as its token. -/
theorem leads_cell (cell : Cell) (hpos : 2 < p.column) (ht : Tail cell.mayBeBlank column next t) :
    ∃ s', Leads (between ⟨p, ' ' :: (cell.write 4 ++ t)⟩ tokens [2, 0] false) s'
      ∧ s'.Arrives (tokens ++ [cell.token]) [2, 0] column next := by
  cases cell with
  | integer n =>
    obtain ⟨c, cs, hcs, -⟩ := Number.exists_head_toString n
    exact leads_plainText _ hpos (allowsPlain_toString n) (hcs ▸ List.cons_ne_nil c cs) ht
  | bool b =>
    cases b with
    | true => exact leads_plainText "true" hpos (by decide) (by decide) ht
    | false => exact leads_plainText "false" hpos (by decide) (by decide) ht
  | text s =>
    simp only [Cell.write, writeText, writeQuoted, Cell.token, Cell.isPlain, Cell.written,
      isWrittenPlain]
    by_cases hline : s.toList.contains '\n' = true
    · have hne : s.toList ≠ [] := by
        intro hnil
        rw [hnil] at hline
        cases hline
      simp only [hline, if_true, Bool.not_true, Bool.false_and]
      split
      · next hblock => exact leads_literal hpos hblock hne ht
      · exact leads_doubleQuoted hpos ht
    · rw [Bool.not_eq_true] at hline
      simp only [hline, Bool.false_eq_true, if_false, Bool.not_false, Bool.true_and]
      cases hplain : !isAmbiguous s && allowsPlain s.toList with
      | true =>
        rw [Bool.and_eq_true, Bool.not_eq_true'] at hplain
        rw [if_pos rfl]
        exact leads_plainText _ hpos hplain.2 (ne_empty_of_not_ambiguous hplain.1) ht
      | false =>
        rw [if_neg Bool.false_ne_true]
        split
        · next hquotes =>
          refine leads_singleQuoted hpos hquotes ?_ ht
          rw [← List.contains_iff_mem, hline]
          exact Bool.false_ne_true
        · exact leads_doubleQuoted hpos ht

/-- The line of a field behind its indentation, and the lines that its value goes on in. -/
def writeField (f : String × Cell) : List Char := f.1.toList ++ [':', ' '] ++ f.2.write 4

/-- A field is found behind its indentation. -/
theorem tail_of_field {f : String × Cell} (mayBeBlank : Bool) (h : isPlainName f.1 = true) :
    Tail mayBeBlank 2 (writeField f ++ t) (spaces 2 ++ (writeField f ++ t)) := by
  obtain ⟨c, cs, hkey⟩ := exists_standsAsKey h
  have hchars : writeField f ++ t = c :: (cs ++ ([':', ' '] ++ f.2.write 4 ++ t)) := by
    simp [writeField, hkey.chars]
  rw [hchars]
  exact hkey.plain.tail mayBeBlank (Nat.le_refl 2)

theorem writeSection_eq (name : String) (fields : List (String × Cell)) : writeSection name fields
    = name.toList ++ ':' :: '\n' :: fields.flatMap fun f => spaces 2 ++ writeField f := by
  simp [writeSection, writeField]

/-- A field is read as its tokens. The first one of a section opens its block. -/
theorem leads_field {f : String × Cell} (hname : isPlainName f.1 = true)
    (hblocks : blocks = [0] ∨ blocks = [2, 0])
    (h : s.Arrives tokens blocks 2 (writeField f ++ t)) (ht : Tail f.2.mayBeBlank column next t) :
    ∃ s', Leads s s'
      ∧ s'.Arrives (tokens ++ (opening blocks 2 ++ fieldTokens f)) [2, 0] column next := by
  obtain ⟨name, cell⟩ := f
  obtain ⟨c, cs, hkey⟩ := exists_standsAsKey hname
  have hchars : writeField (name, cell) ++ t = c :: (cs ++ ':' :: ' ' :: (cell.write 4 ++ t)) := by
    simp [writeField, hkey.chars]
  obtain ⟨p, hp, hlength, happroach⟩ := h.approach
  have hstay : blocks.takeWhile (2 < ·) = [] := by rcases hblocks with rfl | rfl <;> rfl
  have hopened : opened blocks 2 = [2, 0] := by rcases hblocks with rfl | rfl <;> rfl
  have hhead : ∀ n ∈ blocks.head?, n ≤ p.column := by
    rcases hblocks with rfl | rfl <;> simp [hp]
  rw [hchars] at hlength happroach
  rw [hstay, List.map_nil, List.append_nil, List.length_nil, List.drop_zero] at happroach
  simp only [List.length_cons, List.length_append] at hlength
  obtain ⟨q, hq, hleads⟩ := leads_key happroach (by simp; omega) hkey.plain hkey.short rfl hhead
  rw [hp, hopened] at hleads
  obtain ⟨s', hleads', hs'⟩ := leads_cell (p := q) cell (by omega) ht
  refine ⟨s', hleads.trans hleads', ?_⟩
  simpa [fieldTokens, ← hkey.chars, String.ofList_toList] using hs'

theorem leads_fields {f : String × Cell} {fields : List (String × Cell)}
    (hnames : ∀ g ∈ f :: fields, isPlainName g.1 = true) (hblocks : blocks = [0] ∨ blocks = [2, 0])
    (h : s.Arrives tokens blocks 2
      (writeField f ++ ((fields.flatMap fun g => spaces 2 ++ writeField g) ++ t)))
    (ht : Tail (lastMayBeBlank (f :: fields)) column next t) :
    ∃ s', Leads s s' ∧ s'.Arrives
      (tokens ++ (opening blocks 2 ++ (f :: fields).flatMap fieldTokens)) [2, 0] column next := by
  -- Behind the first field the block of the section is open, so the hypothesis takes both blocks.
  induction fields generalizing s tokens blocks f with
  | nil =>
    rw [List.flatMap_singleton]
    exact leads_field (hnames f List.mem_cons_self) hblocks h ht
  | cons g fields ih =>
    rw [List.forall_mem_cons] at hnames
    rw [List.flatMap_cons, List.append_assoc, List.append_assoc] at h
    obtain ⟨s₁, hleads, hs₁⟩ :=
      leads_field hnames.1 hblocks h (tail_of_field _ (hnames.2 g List.mem_cons_self))
    obtain ⟨s₂, hleads', hs₂⟩ := ih hnames.2 (.inr rfl) hs₁ (by simpa [lastMayBeBlank] using ht)
    refine ⟨s₂, hleads.trans hleads', ?_⟩
    simpa [opening] using hs₂

/-! ## Sections -/

/-- What comes next is a section, or nothing. -/
def Awaits (s : Lexer) (tokens : List Token) (blocks : List Nat) (text : List Char) : Prop :=
  ∃ p, p.column = 0 ∧ text.length ≤ s.place.rest.length
    ∧ s.approach = .ok (between ⟨p, text⟩ tokens blocks true)

/-- A section is read as its tokens. The first one opens the block of the sheet. -/
theorem leads_section {name : String} {fields : List (String × Cell)}
    (hname : isPlainName name = true) (hfields : fields ≠ [])
    (hnames : ∀ f ∈ fields, isPlainName f.1 = true)
    (hblocks : blocks = [] ∨ blocks = [0])
    (h : s.Awaits tokens blocks (writeSection name fields ++ t))
    (ht : Tail (lastMayBeBlank fields) 0 next t) :
    ∃ s', Leads s s'
      ∧ s'.Awaits (tokens ++ (opening blocks 0 ++ sectionTokens (name, fields))) [0] next := by
  obtain ⟨f, fields, rfl⟩ := List.exists_cons_of_ne_nil hfields
  obtain ⟨c, cs, hkey⟩ := exists_standsAsKey hname
  have hchars : writeSection name (f :: fields) ++ t = c :: (cs ++ ':' :: '\n' :: (spaces 2
      ++ (writeField f ++ ((fields.flatMap fun g => spaces 2 ++ writeField g) ++ t)))) := by
    simp [writeSection_eq, hkey.chars]
  have hopened : opened blocks 0 = [0] := by rcases hblocks with rfl | rfl <;> rfl
  obtain ⟨p, hp, hlength, happroach⟩ := h
  have hhead : ∀ n ∈ blocks.head?, n ≤ p.column := by
    rcases hblocks with rfl | rfl <;> simp
  rw [hchars] at hlength happroach
  obtain ⟨q, hq, hleads⟩ := leads_key happroach
    (by simp only [List.length_cons, List.length_append] at hlength ⊢; omega) hkey.plain hkey.short
    rfl hhead
  rw [hp, hopened] at hleads
  have hfirst : (between ⟨q, '\n' :: (spaces 2
      ++ (writeField f ++ ((fields.flatMap fun g => spaces 2 ++ writeField g) ++ t)))⟩
      (tokens ++ (opening blocks 0 ++ [.key, .scalar true (String.ofList (c :: cs)), .value])) [0]
      false).Arrives _ [0] 2
        (writeField f ++ ((fields.flatMap fun g => spaces 2 ++ writeField g) ++ t)) :=
    arrives_of_tail (tail_of_field true (hnames f List.mem_cons_self))
  obtain ⟨s', hleads', hs'⟩ := leads_fields hnames (.inl rfl) hfirst ht
  obtain ⟨q', hcolumn, hlength', happroach'⟩ := hs'.approach
  refine ⟨s', hleads.trans hleads', q', hcolumn, hlength', ?_⟩
  rw [happroach', ← hkey.chars, String.ofList_toList]
  simp [sectionTokens, opening]

/-! ## Sheets -/

theorem tail_of_section {name : String} {fields : List (String × Cell)} {mayBeBlank : Bool}
    (h : isPlainName name = true) :
    Tail mayBeBlank 0 (writeSection name fields ++ t) (writeSection name fields ++ t) := by
  obtain ⟨c, cs, hkey⟩ := exists_standsAsKey h
  have hchars : writeSection name fields ++ t = c :: (cs ++ (':' :: '\n' ::
      (fields.flatMap fun f => spaces 2 ++ writeField f) ++ t)) := by
    simp [writeSection_eq, hkey.chars]
  rw [hchars]
  exact hkey.plain.tail mayBeBlank (Nat.zero_le 2)

def writeSections (s : Sheet) : List Char := s.flatMap fun e => writeSection e.1 e.2

theorem writeSections_cons (e : String × List (String × Cell)) (sheet : Sheet) :
    writeSections (e :: sheet) ++ t = writeSection e.1 e.2 ++ (writeSections sheet ++ t) := by
  rw [writeSections, List.flatMap_cons, List.append_assoc]
  rfl

theorem leads_sections {e : String × List (String × Cell)} {sheet : Sheet}
    (hsections : ∀ e' ∈ e :: sheet, IsReadableSection e') (hblocks : blocks = [] ∨ blocks = [0])
    (h : s.Awaits tokens blocks (writeSections (e :: sheet) ++ t))
    (ht : Tail (Sheet.mayBeBlank (e :: sheet)) 0 [] t) :
    ∃ s', Leads s s'
      ∧ s'.Awaits (tokens ++ (opening blocks 0 ++ (e :: sheet).flatMap sectionTokens)) [0] [] := by
  induction sheet generalizing s tokens blocks e with
  | nil =>
    have he := hsections e List.mem_cons_self
    rw [writeSections_cons] at h
    rw [List.flatMap_singleton]
    exact leads_section he.name he.nonempty he.names hblocks h ht
  | cons e' sheet ih =>
    rw [List.forall_mem_cons] at hsections
    obtain ⟨he, hsections⟩ := hsections
    have he' := hsections e' List.mem_cons_self
    rw [writeSections_cons, writeSections_cons] at h
    obtain ⟨s₁, hleads, hs₁⟩ :=
      leads_section he.name he.nonempty he.names hblocks h (tail_of_section he'.name)
    rw [← writeSections_cons] at hs₁
    obtain ⟨s₂, hleads', hs₂⟩ := ih hsections (.inr rfl) hs₁ (by simpa [Sheet.mayBeBlank] using ht)
    refine ⟨s₂, hleads.trans hleads', ?_⟩
    simpa [opening] using hs₂

theorem start_awaits {e : String × List (String × Cell)} {sheet : Sheet}
    (h : isPlainName e.1 = true) : (start (writeSections (e :: sheet) ++ t)).Awaits [] []
      (writeSections (e :: sheet) ++ t) := by
  obtain ⟨c, cs, hkey⟩ := exists_standsAsKey h
  have hchars : writeSections (e :: sheet) ++ t = c :: (cs ++ (':' :: '\n' ::
      (e.2.flatMap fun f => spaces 2 ++ writeField f) ++ (writeSections sheet ++ t))) := by
    simp [writeSections_cons, writeSection_eq, hkey.chars]
  rw [hchars]
  have hskip (rest : List Char) : skipSpace false true false .start (c :: (cs ++ rest))
      = (true, ⟨.start, c :: (cs ++ rest)⟩) :=
    skipSpace_next (hkey.plain.tail false (Nat.zero_le 2))
  refine ⟨.start, rfl, Nat.le_refl _, ?_⟩
  exact (approach_between (hskip _) : (between ⟨.start, _⟩ [] [] true).approach = _)

end Lexer

/-- A sheet that holds something is read as its tokens. -/
theorem run_write {s : Sheet} {t : List Char} (h : s.IsReadable) (ht : Tail s.mayBeBlank 0 [] t) :
    ∃ s', Lexer.run ((s.write.toList ++ t).length + 1) (.start (s.write.toList ++ t)) = .ok s'
      ∧ s'.tokens.reverse = s.tokens := by
  obtain ⟨e, sheet, rfl⟩ := List.exists_cons_of_ne_nil h.nonempty
  have hchars : Sheet.write (e :: sheet) = String.ofList (Lexer.writeSections (e :: sheet)) := rfl
  rw [hchars, String.toList_ofList]
  obtain ⟨s', hleads, q, hq, -, happroach⟩ := Lexer.leads_sections h.sections (.inl rfl)
    (Lexer.start_awaits (h.sections e List.mem_cons_self).name) ht
  -- At the end only the block of the sheet is open.
  have hfinish : (Lexer.between ⟨q, []⟩ ([] ++ (Lexer.opening [] 0
      ++ (e :: sheet).flatMap sectionTokens)) [0] true).finish
      = .ok (Lexer.between ⟨q, []⟩ (Sheet.tokens (e :: sheet)) [] true) := by
    rw [Lexer.finish, Lexer.closeBlocks_between]
    rfl
  refine ⟨_, (hleads.run happroach rfl (Nat.lt_succ_self _)).trans hfinish, ?_⟩
  exact List.reverse_reverse _

end StreamDispatch.Yaml
