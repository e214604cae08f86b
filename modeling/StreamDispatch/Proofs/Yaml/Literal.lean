import StreamDispatch.Proofs.Yaml.Quoted

set_option autoImplicit false

/-! # Literal blocks

A text of several lines stands as a literal block, whose header says how the breaks at its end are
read, and where its lines begin if the first one does not tell. What the reader has read it holds in
parts, since it is the header that decides on the last breaks (`BlockLines.Holds`). -/

namespace StreamDispatch.Yaml

variable {c : Char} {cs read t rest : List Char} {style : BlockStyle} {b : BlockLines}
  {p : Position}

namespace BlockLines

/-- The parts of what has been read, in a literal scalar. -/
structure Holds (b : BlockLines) (read : List Char) : Prop where
  text : b.out.reverse ++ (b.leading ++ b.trailing) = read
  inLine : b.inLine = true → b.leading = [] ∧ b.trailing = []
  breaks : ∀ c ∈ b.leading ++ b.trailing, isBreak c = true
  begun : b.inLine = false → b.leading = [] → b.out = []
  ends : b.inLine = true → ∃ c, read.getLast? = some c ∧ isBreak c = false

theorem Holds.start (indent : Option Nat) : (start indent).Holds [] :=
  ⟨rfl, nofun, nofun, fun _ _ => rfl, nofun⟩

theorem Holds.addBreak (h : b.Holds read) (column : Nat) (hc : isBreak c = true) :
    (b.addBreak column c).Holds (read ++ [c]) ∧ (b.addBreak column c).inLine = false
      ∧ (b.addBreak column c).indent = b.indent := by
  unfold BlockLines.addBreak
  split
  · next hline =>
    obtain ⟨hleading, htrailing⟩ := h.inLine hline
    have htext := h.text
    rw [hleading, htrailing] at htext
    refine ⟨⟨?_, nofun, ?_, nofun, nofun⟩, rfl, rfl⟩
    · simp [htrailing, ← htext]
    · simpa [htrailing] using hc
  · next hline =>
    rw [Bool.not_eq_true] at hline
    have hnot (htrue : b.inLine = true) : False := by
      rw [hline] at htrue
      cases htrue
    refine ⟨⟨?_, fun h => (hnot h).elim, ?_, fun _ => h.begun hline, fun h => (hnot h).elim⟩, hline,
      rfl⟩
    · simp [← h.text]
    · intro d hd
      rw [← List.append_assoc, List.mem_append, List.mem_singleton] at hd
      exact hd.elim (h.breaks d) fun heq => heq ▸ hc

theorem Holds.addChar (h : b.Holds read) (hline : b.inLine = true) (hc : isBreak c = false) :
    { b with out := c :: b.out }.Holds (read ++ [c]) := by
  obtain ⟨hleading, htrailing⟩ := h.inLine hline
  refine ⟨?_, h.inLine, h.breaks, fun h => ?_, fun _ => ⟨c, List.getLast?_concat, hc⟩⟩
  · simp [← h.text, hleading, htrailing]
  · rw [hline] at h
    cases h

theorem Holds.beginLine (h : b.Holds read) (hliteral : style.literal = true) (column : Nat)
    (hc : isBreak c = false) :
    ((b.settled style column).beginLine style c).Holds (read ++ [c]) := by
  refine ⟨?_, fun _ => ⟨rfl, rfl⟩, nofun, nofun, fun _ => ⟨c, List.getLast?_concat, hc⟩⟩
  simp [BlockLines.settled, BlockLines.beginLine, breaksBefore, hliteral, ← h.text]

end BlockLines

/-! ## The end of a block -/

/-- How the breaks at the end of a text have to be read, given its characters from the last one
on. -/
def chompingOf : List Char → Chomping
  | a :: b :: _ => if !isBreak a then .strip else if isBreak b then .keep else .clip
  | [a] => if isBreak a then .keep else .strip
  | [] => .strip

theorem chompingOf_of_notBreak (hc : isBreak c = false) : chompingOf (c :: cs) = .strip := by
  cases cs <;> simp [chompingOf, hc]

theorem chompingOf_of_break (hc : isBreak c = true) : chompingOf (c :: cs) ≠ .strip := by
  cases cs with
  | nil => simp [chompingOf, hc]
  | cons d cs =>
    simp only [chompingOf, hc, Bool.not_true, if_neg Bool.false_ne_true]
    split <;> nofun

theorem chompingOf_of_breaks (hcs : ∀ d ∈ c :: cs, isBreak d = true) (h : cs = [] → t = []) :
    chompingOf (c :: cs ++ t) = .keep := by
  rw [List.forall_mem_cons] at hcs
  match cs, h with
  | [], h => simp [h rfl, chompingOf, hcs.1]
  | d :: cs, _ => simp [chompingOf, hcs.1, hcs.2 d List.mem_cons_self]

namespace BlockLines

/-- A text that ends with a break is what has been read of its block. -/
theorem Holds.text_of_break (h : b.Holds read) (hline : b.inLine = false) (hread : read ≠ []) :
    b.text (chompingOf read.reverse) = read := by
  have hreverse : read.reverse = (b.leading ++ b.trailing).reverse ++ b.out := by
    simp [← h.text]
  -- There is a break at the end, since otherwise nothing would have been read.
  obtain ⟨c, cs, hcs⟩ : ∃ c cs, (b.leading ++ b.trailing).reverse = c :: cs := by
    cases hbreaks : (b.leading ++ b.trailing).reverse with
    | cons c cs => exact ⟨c, cs, rfl⟩
    | nil =>
      have hnil := List.reverse_eq_nil_iff.mp hbreaks
      have hout := h.begun hline (List.append_eq_nil_iff.mp hnil).1
      have htext := h.text
      rw [hnil, hout] at htext
      exact absurd htext.symm hread
  have hall : ∀ d ∈ c :: cs, isBreak d = true := by
    intro d hd
    rw [← hcs, List.mem_reverse] at hd
    exact h.breaks d hd
  by_cases htrailing : b.trailing = []
  · have hchomping : chompingOf read.reverse ≠ .strip := by
      rw [hreverse, hcs]
      exact chompingOf_of_break (hall c List.mem_cons_self)
    have htext := h.text
    rw [htrailing, List.append_nil] at htext
    unfold BlockLines.text
    split
    · next hstrip => exact absurd hstrip hchomping
    · exact htext
    · rw [htrailing, List.append_nil, htext]
  · rw [hreverse, hcs, chompingOf_of_breaks hall]
    · exact h.text
    · -- The only break is a trailing one, so that no line has begun.
      rintro rfl
      refine h.begun hline (List.eq_nil_iff_length_eq_zero.mpr ?_)
      have hlength := congrArg List.length hcs
      have hpos := List.length_pos_iff.mpr htrailing
      simp only [List.length_reverse, List.length_append, List.length_singleton] at hlength
      omega

/-- A text that does not end with a break is what has been read before the break behind it. -/
theorem Holds.text_of_line (h : b.Holds read) (hline : b.inLine = true) (column : Nat) :
    (b.addBreak column '\n').text (chompingOf read.reverse) = read := by
  obtain ⟨c, hlast, hc⟩ := h.ends hline
  obtain ⟨hleading, htrailing⟩ := h.inLine hline
  obtain ⟨cs, hcs⟩ := List.head?_eq_some_iff.mp (List.head?_reverse.trans hlast)
  have htext := h.text
  rw [hleading, htrailing, List.append_nil, List.append_nil] at htext
  rw [hcs, chompingOf_of_notBreak hc, BlockLines.addBreak, if_pos hline]
  exact (List.append_nil _).trans htext

end BlockLines

/-! ## The lines of a block -/

/-- The column of the lines is known, or the first one is about to tell it. -/
def Aligned (b : BlockLines) (cs : List Char) : Prop :=
  b.indent = some 4
    ∨ b.indent = none ∧ b.widest = 0 ∧ b.inLine = false ∧ ∃ c ∈ cs.head?, isGap c = false

theorem readBlock_break (hshown : isShown c = true) (hc : isBreak c = true) :
    readBlock style b p (c :: rest) = readBlock style (b.addBreak p.column c) (p.down 1) rest := by
  rw [readBlock]
  · rw [if_pos hc, breakChar_eq hshown hc]
  · rintro _ rfl
    exact absurd hshown (by decide)

theorem readBlock_char (hc : isBreak c = false) (hline : b.inLine = true) :
    readBlock style b p (c :: rest)
      = readBlock style { b with out := c :: b.out } (p.right 1) rest := by
  rw [readBlock]
  · simp [hc, hline]
  · rintro _ rfl
    cases hc

theorem readBlock_spaces (hline : b.inLine = false) (n : Nat)
    (h : ∀ k < n, b.isIndentation (p.column + k) = true) :
    readBlock style b p (spaces n ++ rest) = readBlock style b (p.right n) rest := by
  induction n generalizing p with
  | zero => rfl
  | succ n ih =>
    have hfirst := h 0 (Nat.succ_pos n)
    have hstep : readBlock style b p (' ' :: (spaces n ++ rest))
        = readBlock style b (p.right 1) (spaces n ++ rest) := by
      rw [readBlock]
      · simp only [Nat.add_zero] at hfirst
        simp [isBreak, hline, hfirst]
      · rintro _ ⟨⟩
    rw [spaces_succ, List.cons_append, hstep, ih, Position.right_right, Nat.add_comm 1]
    intro k hk
    have hnext := h (k + 1) (Nat.succ_lt_succ hk)
    rwa [Nat.add_comm k, ← Nat.add_assoc] at hnext

theorem indent_settled (h : Aligned b cs) (hleast : style.least ≤ 4) :
    (b.settled style 4).indent = some 4 := by
  rcases h with hindent | ⟨hindent, hwidest, -⟩
  · simp [BlockLines.settled, hindent]
  · simp [BlockLines.settled, hindent, hwidest, hleast]

/-- A line begins behind the indentation. -/
theorem readBlock_begin (hshown : isShown c = true) (hc : isBreak c = false)
    (hline : b.inLine = false) (hcolumn : p.column = 0) (h : Aligned b (c :: cs))
    (hleast : style.least ≤ 4) : readBlock style b p (spaces 4 ++ c :: rest)
      = readBlock style ((b.settled style 4).beginLine style c) ((p.right 4).right 1) rest := by
  have hindentation : ∀ k < 4, b.isIndentation (p.column + k) = true := by
    intro k hk
    rw [hcolumn, Nat.zero_add]
    rcases h with hindent | ⟨hindent, -⟩
    · simp [BlockLines.isIndentation, hindent, hk]
    · simp [BlockLines.isIndentation, hindent]
  have hfour : (p.right 4).column = 4 := by
    rw [Position.right, hcolumn]
  have htext : (b.isIndentation 4 && (c == ' ')) = false
      ∧ (b.isIndentation 4 && (c == '\t')) = false := by
    rcases h with hindent | ⟨-, -, -, d, hd, hgap⟩
    · simp [BlockLines.isIndentation, hindent]
    · cases hd
      simp only [isGap, isBlank, Bool.or_eq_false_iff] at hgap
      simp [hgap.1.1, hgap.1.2]
  have hsettled : (b.settled style 4).indent = some 4 := indent_settled h hleast
  rw [readBlock_spaces hline 4 hindentation, readBlock]
  · simp only [hc, hline, hfour, htext.1, htext.2, hsettled, if_neg Bool.false_ne_true, if_true]
  · rintro _ rfl
    cases hc

/-- The lines of a text are read back, up to the break that ends the last one. -/
theorem readBlock_lines (afterBreak : Bool) (p : Position) (hliteral : style.literal = true)
    (hleast : style.least ≤ 4) (hshown : ∀ c ∈ cs, isShown c = true) (h : b.Holds read)
    (hline : b.inLine = !afterBreak) (hcolumn : afterBreak = true → p.column = 0)
    (haligned : Aligned b cs) : ∃ b' p', b'.Holds (read ++ cs) ∧ b'.indent = some 4
      ∧ (b'.inLine = false → p'.column = 0)
      ∧ ∀ t, readBlock style b p (literalLines 4 afterBreak cs ++ t)
        = readBlock style b' p' ((if b'.inLine then ['\n'] else []) ++ t) := by
  induction cs generalizing b p read afterBreak with
  | nil =>
    refine ⟨b, p, ?_, ?_, ?_, ?_⟩
    · rwa [List.append_nil]
    · rcases haligned with hindent | ⟨-, -, -, d, hd, -⟩
      · exact hindent
      · cases hd
    · intro hnot
      rw [hline, Bool.not_eq_false'] at hnot
      exact hcolumn hnot
    · intro t
      cases afterBreak <;> simp [literalLines, hline]
  | cons c cs ih =>
    rw [List.forall_mem_cons] at hshown
    rw [List.append_cons]
    by_cases hc : isBreak c = true
    · obtain ⟨hholds, hline', hindent⟩ := h.addBreak p.column hc
      have haligned' : Aligned (b.addBreak p.column c) cs := by
        rcases haligned with hsome | ⟨-, -, -, d, hd, hgap⟩
        · exact .inl (hindent.trans hsome)
        · cases hd
          simp [isGap, hc] at hgap
      obtain ⟨b', p', hb', hb'', hp', hread⟩ := ih true (p.down 1)
        hshown.2 hholds hline' (fun _ => rfl) haligned'
      refine ⟨b', p', hb', hb'', hp', fun t => ?_⟩
      rw [literalLines, if_pos hc, List.cons_append, readBlock_break hshown.1 hc, hread]
    · rw [Bool.not_eq_true] at hc
      cases afterBreak with
      | false =>
        have hsome : b.indent = some 4 := by
          rcases haligned with hsome | ⟨-, -, hnot, -⟩
          · exact hsome
          · rw [hline] at hnot
            cases hnot
        obtain ⟨b', p', hb', hb'', hp', hread⟩ := ih false (p.right 1)
          hshown.2 (h.addChar hline hc) hline nofun (.inl hsome)
        refine ⟨b', p', hb', hb'', hp', fun t => ?_⟩
        rw [literalLines, hc, if_neg Bool.false_ne_true, if_neg Bool.false_ne_true, List.nil_append,
          List.cons_append, readBlock_char hc hline, hread]
      | true =>
        obtain ⟨b', p', hb', hb'', hp', hread⟩ := ih false ((p.right 4).right 1)
          hshown.2 (h.beginLine hliteral 4 hc) rfl nofun (.inl (indent_settled haligned hleast))
        refine ⟨b', p', hb', hb'', hp', fun t => ?_⟩
        rw [literalLines, hc, if_neg Bool.false_ne_true, if_pos rfl, List.append_assoc,
          List.cons_append, readBlock_begin hshown.1 hc hline (hcolumn rfl) haligned hleast, hread]

/-- Less indentation ends a block. -/
theorem readBlock_tail {column : Nat} {next : List Char} (hline : b.inLine = false)
    (hindent : b.indent = some 4) (hcolumn : p.column = 0) (h : Tail false column next t) :
    ∃ q, readBlock style b p t = .ok (b.text style.chomping, ⟨q, next⟩) ∧ q.column = column := by
  cases h with
  | done => exact ⟨p, by rw [readBlock], hcolumn⟩
  | blankLine h => cases h
  | @key _ c rest htwo hblank hbreak _ _ =>
    have hright : (p.right column).column = column := by
      rw [Position.right, hcolumn, Nat.zero_add]
    refine ⟨p.right column, ?_, hright⟩
    have hindentation : ∀ k < column, b.isIndentation (p.column + k) = true := by
      intro k hk
      simp only [BlockLines.isIndentation, hindent, Option.all_some, decide_eq_true_eq]
      omega
    have hsettled : (b.settled style column).indent = some 4 := by
      simp [BlockLines.settled, hindent]
    have hfour : ¬ some 4 = some column := by
      rw [Option.some.injEq]
      omega
    simp only [isBlank, Bool.or_eq_false_iff] at hblank
    rw [readBlock_spaces hline column hindentation, readBlock]
    · simp only [hbreak, hline, hright, hblank.1, hblank.2, Bool.and_false, hsettled, if_neg hfour,
        if_neg Bool.false_ne_true]
      rfl
    · rintro _ rfl
      cases hbreak

/-! ## The header -/

def Chomping.mark : Chomping → List Char
  | .strip => ['-']
  | .clip => []
  | .keep => ['+']

def indentHint (cs : List Char) : Option Nat := if cs.head?.any isGap then some 2 else none

theorem literalHeader_eq (cs : List Char) : literalHeader cs
    = (if cs.head?.any isGap then ['2'] else []) ++ (chompingOf cs.reverse).mark := by
  simp only [literalHeader]
  congr 1
  match cs.reverse with
  | [] => rfl
  | [a] =>
    simp only [chompingOf]
    cases isBreak a <;> rfl
  | a :: b :: back =>
    simp only [chompingOf]
    cases isBreak a <;> cases isBreak b <;> rfl

/-- The header is read as it is meant. -/
theorem readBlockHeader_literalHeader (cs rest : List Char) :
    readBlockHeader (literalHeader cs ++ '\n' :: rest)
      = .ok (chompingOf cs.reverse, indentHint cs, (literalHeader cs).length) := by
  rw [literalHeader_eq, indentHint]
  split <;> cases chompingOf cs.reverse <;> rfl

/-- A text of several lines is read back from its block. -/
theorem readBlockScalar_literal {column : Nat} {next : List Char} (p : Position)
    (hshown : ∀ c ∈ cs, isShown c = true) (hcs : cs ≠ []) (h : Tail false column next t) :
    ∃ q, readBlockScalar true (some 2)
        ⟨p, literalHeader cs ++ '\n' :: (literalLines 4 true cs ++ t)⟩ = .ok (cs, ⟨q, next⟩)
      ∧ q.column = column := by
  have haligned : Aligned (.start ((indentHint cs).map (2 + ·))) cs := by
    unfold indentHint
    split
    · exact .inl rfl
    · next hgap =>
      cases cs with
      | nil => exact absurd rfl hcs
      | cons c cs => exact .inr ⟨rfl, rfl, rfl, c, rfl, by simpa using hgap⟩
  have hread (style : BlockStyle) (hliteral : style.literal = true) (hleast : style.least ≤ 4)
      (hchomping : style.chomping = chompingOf cs.reverse) (p : Position) (hcolumn : p.column = 0) :
      ∃ q, readBlock style (.start ((indentHint cs).map (2 + ·))) p (literalLines 4 true cs ++ t)
        = .ok (cs, ⟨q, next⟩) ∧ q.column = column := by
    obtain ⟨b, p', hholds, hindent, hcolumn', hlines⟩ := readBlock_lines true p hliteral hleast
      hshown (BlockLines.Holds.start _) rfl (fun _ => hcolumn) haligned
    rw [List.nil_append] at hholds
    rw [hlines]
    cases hline : b.inLine with
    | false =>
      obtain ⟨q, hq, hq'⟩ := readBlock_tail hline hindent (hcolumn' hline) h
      refine ⟨q, ?_, hq'⟩
      rw [if_neg Bool.false_ne_true, List.nil_append, hq, hchomping, hholds.text_of_break hline hcs]
    | true =>
      obtain ⟨-, hline', hindent'⟩ := hholds.addBreak p'.column (c := '\n') rfl
      obtain ⟨q, hq, hq'⟩ := readBlock_tail hline' (hindent'.trans hindent) (p := p'.down 1) rfl h
      refine ⟨q, ?_, hq'⟩
      rw [if_pos rfl, List.singleton_append, readBlock_break rfl rfl, hq, hchomping,
        hholds.text_of_line hline]
  obtain ⟨q, hq, hq'⟩ := hread ⟨true, chompingOf cs.reverse, 3⟩ rfl (Nat.le_succ 3) rfl
    ((p.right (literalHeader cs).length).down 1) rfl
  refine ⟨q, ?_, hq'⟩
  have hskip (rest : List Char) : Place.skip ⟨p, literalHeader cs ++ rest⟩ (literalHeader cs).length
      = ⟨p.right (literalHeader cs).length, rest⟩ := by
    rw [Place.skip, List.drop_left]
  have hend (p : Position) (rest : List Char) :
      Place.toLineEnd ⟨p, '\n' :: rest⟩ = ⟨p, '\n' :: rest⟩ := rfl
  unfold readBlockScalar
  simp only [readBlockHeader_literalHeader, bind, Except.bind, hskip, hend]
  exact hq

end StreamDispatch.Yaml
