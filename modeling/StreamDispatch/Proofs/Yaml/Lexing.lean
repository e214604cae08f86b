import StreamDispatch.Proofs.Yaml.Literal

set_option autoImplicit false

/-! # The tokens of a sheet

The lexer tells the tokens of a text round by round. `Leads` relates two of its states between which
there are rounds only; they chain, and they take no more rounds than characters. A field of a sheet
takes three rounds, for its name, its colon and its value, and it leaves the lexer before the next
key (`Arrives`). -/

namespace StreamDispatch.Yaml.Lexer

variable {s s₁ s₂ : Lexer} {c : Char} {cs t rest next : List Char} {p q : Position}
  {tokens : List Token} {blocks : List Nat} {keyAllowed : Bool} {column : Nat}

/-! ## Rounds -/

/-- Rounds lead from one state to another. -/
def Leads (s s' : Lexer) : Prop :=
  ∃ k, k + s'.place.rest.length ≤ s.place.rest.length ∧ ∀ fuel, run (k + fuel) s = run fuel s'

theorem Leads.trans {s'' : Lexer} (h : Leads s s₁) (h' : Leads s₁ s'') : Leads s s'' := by
  obtain ⟨k, hk, hrun⟩ := h
  obtain ⟨l, hl, hrun'⟩ := h'
  refine ⟨k + l, by omega, fun fuel => ?_⟩
  rw [Nat.add_assoc, hrun, hrun']

theorem Leads.round (happroach : s.approach = .ok s₁) (hrest : s₁.place.rest = c :: rest)
    (hscan : s₁.scanToken c rest = .ok s₂)
    (hlength : s₂.place.rest.length < s.place.rest.length) : Leads s s₂ := by
  refine ⟨1, by omega, fun fuel => ?_⟩
  rw [Nat.add_comm, run, happroach]
  simp only [bind, Except.bind, hrest, hscan]

/-- Where nothing is left, the lexer finishes. -/
theorem Leads.run {s' : Lexer} (h : Leads s s') (happroach : s'.approach = .ok s₁)
    (hrest : s₁.place.rest = []) {fuel : Nat} (hfuel : s.place.rest.length < fuel) :
    Lexer.run fuel s = s₁.finish := by
  obtain ⟨k, hk, hrun⟩ := h
  obtain ⟨n, rfl⟩ := Nat.exists_eq_add_of_lt (Nat.lt_of_le_of_lt (Nat.le_of_add_right_le hk) hfuel)
  rw [Nat.add_assoc, hrun, Lexer.run, happroach]
  simp only [bind, Except.bind, hrest]

/-- The lexer outside brackets, where no key is open. -/
def between (place : Place) (tokens : List Token) (blocks : List Nat) (keyAllowed : Bool) : Lexer :=
  ⟨place, tokens.reverse, tokens.length, blocks, [none], keyAllowed⟩

theorem closeBlocks_between (place : Place) (isDeeper : Nat → Bool) :
    (between place tokens blocks keyAllowed).closeBlocks isDeeper
      = between place (tokens ++ (blocks.takeWhile isDeeper).map fun _ => .blockEnd)
          (blocks.drop (blocks.takeWhile isDeeper).length) keyAllowed := by
  have hpush : ∀ (closed : List Nat) (tokens : List Token),
      closed.foldl (fun s _ => s.push .blockEnd) (between place tokens blocks keyAllowed)
        = between place (tokens ++ closed.map fun _ => .blockEnd) blocks keyAllowed := by
    intro closed
    induction closed with
    | nil =>
      intro tokens
      rw [List.map_nil, List.append_nil]
      rfl
    | cons n closed ih =>
      intro tokens
      have hone : (between place tokens blocks keyAllowed).push .blockEnd
          = between place (tokens ++ [.blockEnd]) blocks keyAllowed := by
        simp [between, push]
      rw [List.foldl_cons, hone, ih, List.map_cons, List.append_assoc, List.singleton_append]
  have hclose : (between place tokens blocks keyAllowed).closeBlocks isDeeper
      = { (blocks.takeWhile isDeeper).foldl (fun s _ => s.push .blockEnd)
            (between place tokens blocks keyAllowed) with
          blocks := ((blocks.takeWhile isDeeper).foldl (fun s _ => s.push .blockEnd)
            (between place tokens blocks keyAllowed)).blocks.drop
              (blocks.takeWhile isDeeper).length } := rfl
  rw [hclose, hpush]
  rfl

theorem closeBlocks_of_none {isDeeper : Nat → Bool} (h : s.blocks.takeWhile isDeeper = []) :
    s.closeBlocks isDeeper = s := by
  unfold closeBlocks
  rw [h]
  split <;> rfl

/-- The lexer goes on to the next token, and closes the blocks that end before it. -/
theorem approach_between {cs' : List Char} {keyAllowed' : Bool}
    (h : skipSpace false keyAllowed false p cs = (keyAllowed', ⟨q, cs'⟩)) :
    (between ⟨p, cs⟩ tokens blocks keyAllowed).approach
      = .ok (between ⟨q, cs'⟩
          (tokens ++ (blocks.takeWhile (q.column < ·)).map fun _ => .blockEnd)
          (blocks.drop (blocks.takeWhile (q.column < ·)).length) keyAllowed') := by
  rw [← closeBlocks_between]
  unfold approach
  simp only [between, inFlow, List.length_singleton, Nat.lt_irrefl, decide_false, h]
  rfl

/-! ## Plain scalars -/

theorem mem_marks_of_isIndicator (h : isIndicator c = true) :
    c ∈ StandsPlain.marks ∨ c = '?' ∨ c = ':' ∨ c = '-' := by
  have hall : "-?:,[]\x7b\x7d#&*!|>'\"%@`".toList.all (fun d =>
      StandsPlain.marks.contains d || d == '?' || d == ':' || d == '-') = true := by
    decide
  have hc := List.all_eq_true.mp hall c (List.contains_iff_mem.mp h)
  simpa [or_assoc] using hc

/-- A text that stands as it is begins like a plain scalar. -/
theorem beginsPlain_of_standsPlain (h : StandsPlain c cs) :
    beginsPlain false c (cs ++ t) = true := by
  by_cases hword : c = '?' ∨ c = ':' ∨ c = '-'
  · have hend := endsWord_append (t := t) (h.notWord hword)
    rcases hword with rfl | rfl | rfl
    · simp [beginsPlain, hend]
    · simp [beginsPlain, hend]
    · have hblank : (cs ++ t).head?.all (!isBlank ·) = true := by
        cases hcs : cs ++ t with
        | nil => rfl
        | cons d rest =>
          rw [hcs, endsWord, Bool.or_eq_false_iff] at hend
          simp [hend.1]
      rw [beginsPlain, hblank, beq_self_eq_true, Bool.and_true, Bool.or_true, Bool.true_or]
  · have hindicator : isIndicator c = false := by
      rw [Bool.eq_false_iff]
      intro hc
      exact (mem_marks_of_isIndicator hc).elim h.notMark hword
    simp [beginsPlain, h.notBlank, h.notBreak, hindicator]

theorem scanToken_plain (hflow : s.inFlow = false) (h : StandsPlain c cs)
    (hmarker : s.column = 0 → isDocumentMarker (c :: cs ++ t) = false) :
    s.scanToken c (cs ++ t) = s.plainScalar := by
  have hne {d : Char} (hd : d ∈ StandsPlain.marks) : ¬ c = d := h.ne_of_mem_marks hd
  have hword (hc : c = '?' ∨ c = ':' ∨ c = '-') : ¬ endsWord (cs ++ t) = true := by
    rw [endsWord_append (h.notWord hc)]
    exact Bool.false_ne_true
  unfold scanToken
  rw [if_neg fun hc => hne (by decide) hc.2,
    if_neg fun hc => Bool.eq_false_iff.mp (hmarker hc.1) hc.2, if_neg (hne (by decide)),
    if_neg (hne (by decide)), if_neg (hne (by decide)), if_neg (hne (by decide)),
    if_neg (hne (by decide)), if_neg fun hc => hword (.inr (.inr hc.1)) hc.2, if_neg, if_neg,
    if_neg (hne (by decide)), if_neg (hne (by decide)), if_neg (hne (by decide)),
    if_neg fun hc => hne (by decide) hc.1, if_neg fun hc => hne (by decide) hc.1,
    if_neg (hne (by decide)), if_neg (hne (by decide)), hflow,
    if_pos (beginsPlain_of_standsPlain h)]
  · rw [hflow, Bool.false_or]
    exact fun hc => hword (.inr (.inl hc.1)) hc.2
  · rw [hflow, Bool.false_or]
    exact fun hc => hword (.inl hc.1) hc.2

theorem plainScalar_eq {s' : Lexer} {found : PlainScalar} (hnote : s.noteCandidate = .ok s')
    (hread : readPlain s'.inFlow s'.contentColumn [] .none true s'.place.position s'.place.rest
      = .ok found) : s.plainScalar
      = .ok (((s'.allowKey found.lineEnded).push (.scalar true (String.ofList found.text))).at_
          found.place) := by
  unfold plainScalar
  rw [hnote]
  simp only [bind, Except.bind, hread]
  rfl

/-! ## Keys -/

/-- The lexer behind the name of a key, which its colon will tell to be one. -/
def behindKey (place : Place) (tokens : List Token) (blocks : List Nat) (k : KeyCandidate) :
    Lexer :=
  { between place tokens blocks false with candidates := [some k] }

theorem contentColumn_le {place : Place} (h : ∀ n ∈ blocks.head?, n ≤ p.column) :
    (between place tokens blocks keyAllowed).contentColumn ≤ p.column + 1 := by
  unfold contentColumn between indent?
  cases hblocks : blocks.head? with
  | none => exact Nat.zero_le _
  | some n => exact Nat.succ_le_succ (h n hblocks)

/-- Where a key may begin, it is noted. -/
theorem noteCandidate_between (place : Place) (tokens : List Token) (blocks : List Nat) :
    (between place tokens blocks true).noteCandidate = .ok { between place tokens blocks true with
        candidates := [some ⟨blocks.head? == some place.position.column, tokens.length,
          place.position⟩] } := rfl

/-- The name of a key is read up to its colon. -/
theorem scanToken_name (h : StandsPlain c cs) (hword : endsWord rest = true)
    (hblocks : ∀ n ∈ blocks.head?, n ≤ p.column) :
    (between ⟨p, c :: (cs ++ ':' :: rest)⟩ tokens blocks true).scanToken c (cs ++ ':' :: rest)
      = .ok (behindKey ⟨p.right (cs.length + 1), ':' :: rest⟩
          (tokens ++ [.scalar true (String.ofList (c :: cs))]) blocks
          ⟨blocks.head? == some p.column, tokens.length, p⟩) := by
  rw [scanToken_plain rfl h fun _ => h.notMarker]
  have hindent : (between ⟨p, c :: (cs ++ ':' :: rest)⟩ tokens blocks true).contentColumn
      ≤ p.column + 1 := contentColumn_le hblocks
  have hread := h.readPlain (t := ':' :: rest) hindent fun _ => h.notMarker
  rw [readPlain_colon hword, List.reverse_reverse] at hread
  have hnote := noteCandidate_between ⟨p, c :: (cs ++ ':' :: rest)⟩ tokens blocks
  rw [plainScalar_eq hnote hread]
  simp [behindKey, between, push, allowKey, at_]

/-- The token that opens a block for a key, if the key is not one of the innermost block. -/
def opening (blocks : List Nat) (column : Nat) : List Token :=
  if blocks.head? = some column then [] else [.blockMappingStart]

/-- The blocks that are open at a key. -/
def opened (blocks : List Nat) (column : Nat) : List Nat :=
  if blocks.head? = some column then blocks else column :: blocks

theorem approach_behindKey {n number : Nat} {required : Bool} (hn : n ≤ 1024)
    (hblocks : ∀ n ∈ blocks.head?, n ≤ p.column) :
    (behindKey ⟨p.right n, ':' :: rest⟩ tokens blocks ⟨required, number, p⟩).approach
      = .ok (behindKey ⟨p.right n, ':' :: rest⟩ tokens blocks ⟨required, number, p⟩) := by
  have hskip : skipSpace false false false (p.right n) (':' :: rest)
      = (false, ⟨p.right n, ':' :: rest⟩) := by
    rw [skipSpace]
    · rfl
    · nofun
  have hfresh : KeyCandidate.isStale ⟨required, number, p⟩ (p.right n) = false := by
    simp [KeyCandidate.isStale, Position.right, hn]
  have hclosed : blocks.takeWhile ((p.right n).column < ·) = [] := by
    cases blocks with
    | nil => rfl
    | cons m blocks =>
      have hm := hblocks m rfl
      have hnot : ¬ p.column + n < m := by omega
      simp [Position.right, hnot]
  have hdrop : (behindKey ⟨p.right n, ':' :: rest⟩ tokens blocks ⟨required, number, p⟩).dropStale
      = .ok (behindKey ⟨p.right n, ':' :: rest⟩ tokens blocks ⟨required, number, p⟩) := by
    simp [dropStale, behindKey, between, hfresh, bind, Except.bind, pure, Except.pure]
  unfold approach
  simp only [behindKey, between, inFlow, List.length_singleton, Nat.lt_irrefl, decide_false, hskip]
  simp only [behindKey, between] at hdrop
  rw [hdrop]
  simp only [bind, Except.bind]
  rw [closeBlocks_of_none hclosed]
  rfl

/-- The colon behind the name of a key marks it as one and, if need be, opens a block for it. -/
theorem scanToken_colon {name : Token} {required : Bool} (hword : endsWord rest = true)
    (hblocks : ∀ n ∈ blocks.head?, n ≤ p.column) :
    (behindKey ⟨q, ':' :: rest⟩ (tokens ++ [name]) blocks
        ⟨required, tokens.length, p⟩).scanToken ':' rest
      = .ok (between ⟨q.right 1, rest⟩
          (tokens ++ (opening blocks p.column ++ [.key, name, .value])) (opened blocks p.column)
          false) := by
  have hscan : (behindKey ⟨q, ':' :: rest⟩ (tokens ++ [name]) blocks
      ⟨required, tokens.length, p⟩).scanToken ':' rest
      = (behindKey ⟨q, ':' :: rest⟩ (tokens ++ [name]) blocks
          ⟨required, tokens.length, p⟩).value := by
    simp [scanToken, isDocumentMarker, hword]
  have hinsert : (tokens.length + 1) - tokens.length = 1 := Nat.add_sub_cancel_left ..
  have hinsert' : (tokens.length + 1 + 1) - tokens.length = 2 := by omega
  rw [hscan]
  unfold Lexer.value opening opened openBlock
  by_cases hhead : blocks.head? = some p.column
  · simp [behindKey, between, insert, hinsert, hhead, inFlow, indent?, indicator, allowKey, push,
      at_, Place.skip]
  · have hnot : blocks.head?.any (p.column ≤ ·) = false := by
      cases hblock : blocks.head? with
      | none => rfl
      | some n =>
        have hne : n ≠ p.column := fun heq => hhead (heq ▸ hblock)
        have hle := hblocks n hblock
        rw [Option.any_some, decide_eq_false_iff_not]
        omega
    simp [behindKey, between, insert, hinsert, hinsert', hhead, hnot, inFlow, indent?, indicator,
      allowKey, push, at_, Place.skip]

/-- A key takes two rounds, one for its name and one for its colon. -/
theorem leads_key (happroach : s.approach
      = .ok (between ⟨p, c :: (cs ++ ':' :: rest)⟩ tokens blocks true))
    (hlength : rest.length + (cs.length + 2) ≤ s.place.rest.length) (h : StandsPlain c cs)
    (hname : cs.length < 1024) (hword : endsWord rest = true)
    (hblocks : ∀ n ∈ blocks.head?, n ≤ p.column) :
    ∃ q, q.column = p.column + (cs.length + 2) ∧ Leads s (between ⟨q, rest⟩
      (tokens ++ (opening blocks p.column
        ++ [.key, .scalar true (String.ofList (c :: cs)), .value]))
      (opened blocks p.column) false) := by
  refine ⟨(p.right (cs.length + 1)).right 1, rfl, ?_⟩
  refine (Leads.round happroach rfl (scanToken_name h hword hblocks) ?_).trans
    (.round (approach_behindKey hname hblocks) rfl (scanToken_colon hword hblocks) ?_)
  · show rest.length + 1 < _
    omega
  · exact Nat.lt_succ_self _

/-! ## Between tokens -/

theorem skipSpace_char (hblank : isBlank c = false) (hbreak : isBreak c = false)
    (hcomment : c ≠ '#') (hmark : c ≠ '\ufeff') :
    skipSpace false keyAllowed false p (c :: rest) = (keyAllowed, ⟨p, c :: rest⟩) := by
  simp only [isBlank, Bool.or_eq_false_iff, beq_eq_false_iff_ne] at hblank
  rw [skipSpace]
  · simp [hbreak, hcomment, hmark, hblank.1, hblank.2]
  · rintro _ rfl
    cases hbreak

theorem skipSpace_spaces (n : Nat) : skipSpace false keyAllowed false p (spaces n ++ rest)
    = skipSpace false keyAllowed false (p.right n) rest := by
  induction n generalizing p with
  | zero => rfl
  | succ n ih =>
    have hstep : skipSpace false keyAllowed false p (' ' :: (spaces n ++ rest))
        = skipSpace false keyAllowed false (p.right 1) (spaces n ++ rest) := by
      rw [skipSpace]
      · rfl
      · nofun
    rw [spaces_succ, List.cons_append, hstep, ih, Position.right_right, Nat.add_comm 1]

theorem skipSpace_break : skipSpace false keyAllowed false p ('\n' :: rest)
    = skipSpace false true false (p.down 1) rest := by
  rw [skipSpace]
  · simp [isBreak]
  · rintro _ ⟨⟩

/-- Behind the line of a field the next key, or the end, is found. -/
theorem skipSpace_tail {mayBeBlank : Bool} (h : Tail mayBeBlank column next t) :
    ∃ q, skipSpace false keyAllowed false p ('\n' :: t) = (true, ⟨q, next⟩)
      ∧ q.column = column := by
  rw [skipSpace_break]
  cases h with
  | key _ hblank hbreak hcomment hmark =>
    refine ⟨(p.down 1).right column, ?_, Nat.zero_add _⟩
    rw [skipSpace_spaces, skipSpace_char hblank hbreak hcomment hmark]
  | done => exact ⟨p.down 1, rfl, rfl⟩
  | blankLine h => exact ⟨(p.down 1).down 1, rfl, rfl⟩

theorem skipSpace_next {mayBeBlank : Bool} (h : Tail mayBeBlank column next t) :
    skipSpace false keyAllowed false p next = (keyAllowed, ⟨p, next⟩) := by
  cases h with
  | key _ hblank hbreak hcomment hmark => exact skipSpace_char hblank hbreak hcomment hmark
  | done => rfl
  | blankLine h => rfl

theorem length_le_of_tail {mayBeBlank : Bool} (h : Tail mayBeBlank column next t) :
    next.length ≤ t.length := by
  cases h with
  | key => simp
  | done => exact Nat.le_refl _
  | blankLine h => exact Nat.zero_le _

/-- The lexer has told some tokens, and what comes next is a key at a column, or nothing. -/
def Arrives (s : Lexer) (tokens : List Token) (blocks : List Nat) (column : Nat)
    (next : List Char) : Prop :=
  ∃ p cs keyAllowed q, s = between ⟨p, cs⟩ tokens blocks keyAllowed
    ∧ skipSpace false keyAllowed false p cs = (true, ⟨q, next⟩) ∧ q.column = column
    ∧ next.length ≤ cs.length

/-- The end of a line is behind a field. -/
theorem arrives_of_tail {mayBeBlank : Bool} (h : Tail mayBeBlank column next t) :
    (between ⟨p, '\n' :: t⟩ tokens blocks keyAllowed).Arrives tokens blocks column next := by
  obtain ⟨q, hskip, hcolumn⟩ : ∃ q, skipSpace false keyAllowed false p ('\n' :: t)
      = (true, ⟨q, next⟩) ∧ q.column = column := skipSpace_tail h
  exact ⟨p, '\n' :: t, keyAllowed, q, rfl, hskip, hcolumn, Nat.le_succ_of_le (length_le_of_tail h)⟩

theorem Arrives.approach (h : s.Arrives tokens blocks column next) :
    ∃ q, q.column = column ∧ next.length ≤ s.place.rest.length ∧ s.approach = .ok (between ⟨q, next⟩
      (tokens ++ (blocks.takeWhile (column < ·)).map fun _ => .blockEnd)
      (blocks.drop (blocks.takeWhile (column < ·)).length) true) := by
  obtain ⟨p, cs, keyAllowed, q, rfl, hskip, rfl, hlength⟩ := h
  exact ⟨q, rfl, hlength, approach_between hskip⟩

/-! ## Values -/

/-- Where a value begins, no block ends. -/
theorem approach_value (hpos : 2 < p.column) (hblank : isBlank c = false)
    (hbreak : isBreak c = false) (hcomment : c ≠ '#') (hmark : c ≠ '\ufeff') :
    (between ⟨p, ' ' :: c :: rest⟩ tokens [2, 0] false).approach
      = .ok (between ⟨p.right 1, c :: rest⟩ tokens [2, 0] false) := by
  have hskip : skipSpace false false false p (' ' :: c :: rest)
      = (false, ⟨p.right 1, c :: rest⟩) :=
    (skipSpace_spaces 1).trans (skipSpace_char hblank hbreak hcomment hmark)
  have hnot : ¬ (p.right 1).column < 2 := by
    simp only [Position.right]
    omega
  rw [approach_between hskip]
  simp [hnot]

/-- A value that stands as it is. -/
theorem leads_plain {mayBeBlank : Bool} (hpos : 2 < p.column) (h : StandsPlain c cs)
    (ht : Tail mayBeBlank column next t) :
    ∃ s', Leads (between ⟨p, ' ' :: (c :: cs ++ '\n' :: t)⟩ tokens [2, 0] false) s'
      ∧ s'.Arrives (tokens ++ [.scalar true (String.ofList (c :: cs))]) [2, 0] column next := by
  obtain ⟨q, hq, hcolumn⟩ := readPlain_line (p := (p.right 1).right (cs.length + 1))
    (Nat.le_refl 3) (List.reverse_ne_nil_iff.mpr (List.cons_ne_nil c cs)) ht
  have hnonzero : (p.right 1).column ≠ 0 := Nat.succ_ne_zero _
  have hindent : 3 ≤ (p.right 1).column + 1 := Nat.le_succ_of_le (Nat.le_succ_of_le hpos)
  have hread := h.readPlain (t := '\n' :: t) hindent fun hzero => absurd hzero hnonzero
  rw [hq, List.reverse_reverse] at hread
  have hscan : (between ⟨p.right 1, c :: (cs ++ '\n' :: t)⟩ tokens [2, 0] false).scanToken c
      (cs ++ '\n' :: t) = .ok (between ⟨q, next⟩
        (tokens ++ [.scalar true (String.ofList (c :: cs))]) [2, 0] true) := by
    have hflow : (between ⟨p.right 1, c :: (cs ++ '\n' :: t)⟩ tokens [2, 0] false).inFlow = false :=
      rfl
    have hnote : (between ⟨p.right 1, c :: (cs ++ '\n' :: t)⟩ tokens [2, 0] false).noteCandidate
        = .ok (between ⟨p.right 1, c :: (cs ++ '\n' :: t)⟩ tokens [2, 0] false) := rfl
    rw [scanToken_plain hflow h fun hzero => absurd hzero hnonzero, plainScalar_eq hnote hread]
    simp [between, push, allowKey, at_]
  refine ⟨_, .round (approach_value hpos h.notBlank h.notBreak (h.ne_of_mem_marks (by decide)) ?_)
    rfl hscan ?_, q, next, true, q, rfl, skipSpace_next ht, hcolumn, Nat.le_refl _⟩
  · exact ne_of_isShown (h.shown c List.mem_cons_self) rfl
  · have hle := length_le_of_tail ht
    simp only [between, List.length_cons, List.length_append]
    omega

theorem scanToken_singleQuote :
    s.scanToken '\'' rest = s.quotedScalar (readSingleQuoted [] .none) := by
  simp [scanToken, isDocumentMarker]

theorem scanToken_doubleQuote :
    s.scanToken '"' rest = s.quotedScalar (readDoubleQuoted [] .none .outside) := by
  simp [scanToken, isDocumentMarker]

/-- A value between quotes. -/
theorem leads_quoted {read : Position → List Char → Scanned} {quote : Char} {inner : List Char}
    {text : String} {mayBeBlank : Bool} (hpos : 2 < p.column) (hquote : quote = '\'' ∨ quote = '"')
    (hscan : ∀ (s : Lexer) (rest : List Char), s.scanToken quote rest = s.quotedScalar read)
    (hread : read ((p.right 1).right 1) (inner ++ quote :: '\n' :: t)
      = .ok (text.toList, ⟨q, '\n' :: t⟩))
    (ht : Tail mayBeBlank column next t) :
    ∃ s', Leads (between ⟨p, ' ' :: quote :: (inner ++ quote :: '\n' :: t)⟩ tokens [2, 0] false) s'
      ∧ s'.Arrives (tokens ++ [.scalar false text]) [2, 0] column next := by
  have hround : (between ⟨p.right 1, quote :: (inner ++ quote :: '\n' :: t)⟩ tokens [2, 0]
      false).scanToken quote (inner ++ quote :: '\n' :: t)
      = .ok (between ⟨q, '\n' :: t⟩ (tokens ++ [.scalar false text]) [2, 0] false) := by
    have hnote : (between ⟨p.right 1, quote :: (inner ++ quote :: '\n' :: t)⟩ tokens [2, 0]
          false).noteCandidate
        = .ok (between ⟨p.right 1, quote :: (inner ++ quote :: '\n' :: t)⟩ tokens [2, 0] false) :=
      rfl
    have hinside : (between ⟨p.right 1, quote :: (inner ++ quote :: '\n' :: t)⟩ tokens [2, 0]
          false).place.skip 1 = ⟨(p.right 1).right 1, inner ++ quote :: '\n' :: t⟩ := rfl
    rw [hscan, quotedScalar, hnote]
    simp only [bind, Except.bind, hinside, hread]
    simp [between, push, allowKey, at_, pure, Except.pure]
  have happroach : (between ⟨p, ' ' :: quote :: (inner ++ quote :: '\n' :: t)⟩ tokens [2, 0]
      false).approach
      = .ok (between ⟨p.right 1, quote :: (inner ++ quote :: '\n' :: t)⟩ tokens [2, 0] false) := by
    rcases hquote with rfl | rfl <;>
      exact approach_value hpos rfl rfl (by decide) (by decide)
  refine ⟨_, .round happroach rfl hround ?_, arrives_of_tail ht⟩
  simp only [between, List.length_cons, List.length_append]
  omega

theorem scanToken_bar (hflow : s.inFlow = false) : s.scanToken '|' rest = s.blockScalar true := by
  simp [scanToken, isDocumentMarker, hflow]

/-- A value that is a literal block. -/
theorem leads_block {body : List Char} {text : String} {mayBeBlank : Bool} (hpos : 2 < p.column)
    (hread : readBlockScalar true (some 2) ⟨(p.right 1).right 1, body⟩
      = .ok (text.toList, ⟨q, next⟩))
    (hcolumn : q.column = column) (ht : Tail mayBeBlank column next t)
    (hlength : t.length ≤ body.length) :
    ∃ s', Leads (between ⟨p, ' ' :: '|' :: body⟩ tokens [2, 0] false) s'
      ∧ s'.Arrives (tokens ++ [.scalar false text]) [2, 0] column next := by
  have hround : (between ⟨p.right 1, '|' :: body⟩ tokens [2, 0] false).scanToken '|' body
      = .ok (between ⟨q, next⟩ (tokens ++ [.scalar false text]) [2, 0] true) := by
    have hflow : (between ⟨p.right 1, '|' :: body⟩ tokens [2, 0] false).inFlow = false := rfl
    have hnote : (between ⟨p.right 1, '|' :: body⟩ tokens [2, 0] false).dropCandidate
        = .ok (between ⟨p.right 1, '|' :: body⟩ tokens [2, 0] false) := rfl
    have hinside : (between ⟨p.right 1, '|' :: body⟩ tokens [2, 0] false).place.skip 1
        = ⟨(p.right 1).right 1, body⟩ := rfl
    have hindent : (between ⟨p.right 1, '|' :: body⟩ tokens [2, 0] false).indent? = some 2 := rfl
    rw [scanToken_bar hflow, blockScalar, hnote]
    simp only [bind, Except.bind, hinside, hindent, hread]
    simp [between, push, allowKey, at_, pure, Except.pure]
  refine ⟨_, .round (approach_value hpos rfl rfl (by decide) (by decide)) rfl hround ?_, q, next,
    true, q, rfl, skipSpace_next ht, hcolumn, Nat.le_refl _⟩
  have hle := length_le_of_tail ht
  simp only [between, List.length_cons]
  omega

end StreamDispatch.Yaml.Lexer
