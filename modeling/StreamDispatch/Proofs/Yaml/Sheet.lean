import StreamDispatch.Proofs.Yaml.Entries
import StreamDispatch.Proofs.Yaml.Tokens
import StreamDispatch.Yaml.Value.Parser

set_option autoImplicit false

/-! # Sheets that are read back

The text of a sheet is read as the value that the sheet stands for: its characters are allowed, its
tokens spell a mapping of mappings, and each scalar means the value that it was written for. -/

namespace StreamDispatch.Yaml

/-! ## Characters -/

def AreAllowed (cs : List Char) : Prop := ∀ c ∈ cs, isAllowed c = true

namespace AreAllowed

variable {c : Char} {cs cs' : List Char}

theorem nil : AreAllowed [] := nofun

theorem cons (hc : isAllowed c = true) (h : AreAllowed cs) : AreAllowed (c :: cs) :=
  List.forall_mem_cons.mpr ⟨hc, h⟩

theorem append (h : AreAllowed cs) (h' : AreAllowed cs') : AreAllowed (cs ++ cs') :=
  List.forall_mem_append.mpr ⟨h, h'⟩

theorem flatMap {α : Type} {l : List α} {f : α → List Char} (h : ∀ a ∈ l, AreAllowed (f a)) :
    AreAllowed (l.flatMap f) := by
  intro c hc
  obtain ⟨a, ha, hc⟩ := List.mem_flatMap.mp hc
  exact h a ha c hc

theorem ite {p : Prop} [Decidable p] (h : AreAllowed cs) (h' : AreAllowed cs') :
    AreAllowed (if p then cs else cs') := by
  split
  · exact h
  · exact h'

theorem spaces (n : Nat) : AreAllowed (spaces n) := by
  intro c hc
  rw [List.eq_of_mem_replicate hc]
  rfl

theorem of_isShown (h : ∀ c ∈ cs, isShown c = true) : AreAllowed cs :=
  fun c hc => isAllowed_of_isShown (h c hc)

theorem of_allowsPlain (h : allowsPlain cs = true) : AreAllowed cs := by
  cases cs with
  | nil => exact .nil
  | cons c cs => exact .of_isShown (standsPlain_of_allowsPlain h).shown

theorem singleQuotedChars (indent : Nat) (afterBreak : Bool) (h : AreAllowed cs) :
    AreAllowed (singleQuotedChars indent afterBreak cs) := by
  induction cs generalizing afterBreak with
  | nil => exact .ite (.spaces indent) .nil
  | cons c cs ih =>
    obtain ⟨hc, hcs⟩ := List.forall_mem_cons.mp h
    rw [Yaml.singleQuotedChars]
    exact .ite (.cons hc (ih true hcs)) (((AreAllowed.ite (.spaces indent) .nil).append
      (.ite (.cons rfl (.cons rfl .nil)) (.cons hc .nil))).append (ih false hcs))

theorem literalLines (indent : Nat) (afterBreak : Bool) (h : AreAllowed cs) :
    AreAllowed (literalLines indent afterBreak cs) := by
  induction cs generalizing afterBreak with
  | nil => exact .ite .nil (.cons rfl .nil)
  | cons c cs ih =>
    obtain ⟨hc, hcs⟩ := List.forall_mem_cons.mp h
    rw [Yaml.literalLines]
    exact .ite (.cons hc (ih true hcs))
      ((AreAllowed.ite (.spaces indent) .nil).append (.cons hc (ih false hcs)))

theorem literalHeader (cs : List Char) : AreAllowed (literalHeader cs) := by
  have hmark (chomping : Chomping) : AreAllowed chomping.mark := by
    cases chomping with
    | strip | keep => exact .cons rfl .nil
    | clip => exact .nil
  rw [literalHeader_eq]
  exact (AreAllowed.ite (.cons rfl .nil) .nil).append (hmark _)

theorem upperHex (width n : Nat) : AreAllowed (upperHex width n) := by
  have hdigit : ∀ d < 16, isAllowed (Nat.digitChar d).toUpper = true := by decide
  induction width generalizing n with
  | zero => exact .nil
  | succ width ih => exact (ih (n / 16)).append (.cons (hdigit _ (Nat.mod_lt n (by decide))) .nil)

theorem doubleQuotedChar (c : Char) : AreAllowed (doubleQuotedChar c) := by
  unfold Yaml.doubleQuotedChar
  split
  · next h =>
    simp only [Bool.and_eq_true] at h
    exact .cons (isAllowed_of_isShown h.1.1.1) .nil
  · split
    · next letter hletter =>
      have hallowed : isAllowed letter = true := by
        unfold escapeLetter? at hletter
        split at hletter
        all_goals cases hletter
        all_goals rfl
      exact .cons rfl (.cons hallowed .nil)
    · exact .ite (.cons rfl (.cons rfl (.upperHex 2 _)))
        (.ite (.cons rfl (.cons rfl (.upperHex 4 _))) (.cons rfl (.cons rfl (.upperHex 8 _))))

theorem doubleQuoted (cs : List Char) :
    AreAllowed ('"' :: cs.flatMap Yaml.doubleQuotedChar ++ ['"', '\n']) :=
  (AreAllowed.cons rfl (.flatMap fun c _ => .doubleQuotedChar c)).append
    (.cons rfl (.cons rfl .nil))

theorem write (cell : Cell) : AreAllowed (cell.write 4) := by
  have hbreak : AreAllowed ['\n'] := .cons rfl .nil
  cases cell with
  | integer n => exact (AreAllowed.of_allowsPlain (allowsPlain_toString n)).append hbreak
  | bool b => exact .of_isShown (List.all_eq_true.mp (by cases b <;> decide))
  | text s =>
    rw [Cell.write, writeText]
    split
    · split
      · next h =>
        simp only [allowsBlock, Bool.and_eq_true, List.all_eq_true] at h
        exact (AreAllowed.cons rfl (.literalHeader _)).append
          (.cons rfl (.literalLines 4 true (.of_isShown h.1.1)))
      · exact .doubleQuoted _
    · split
      · next h => exact (AreAllowed.of_allowsPlain (Bool.and_eq_true_iff.mp h).2).append hbreak
      · rw [writeQuoted]
        split
        · next h =>
          simp only [allowsSingleQuotes, Bool.and_eq_true, List.all_eq_true] at h
          exact (AreAllowed.cons rfl (.singleQuotedChars 4 false (.of_isShown h.1.1))).append
            (.cons rfl hbreak)
        · exact .doubleQuoted _

theorem of_isPlainName {name : String} (h : isPlainName name = true) : AreAllowed name.toList := by
  simp only [isPlainName, Bool.and_eq_true] at h
  exact .of_allowsPlain h.1.2

theorem writeSections {s : Sheet} (h : s.IsReadable) : AreAllowed (Lexer.writeSections s) := by
  refine .flatMap fun e he => ?_
  rw [Lexer.writeSection_eq]
  refine (AreAllowed.of_isPlainName (h.sections e he).name).append (.cons rfl (.cons rfl
    (.flatMap fun f hf => (AreAllowed.spaces 2).append ?_)))
  exact ((AreAllowed.of_isPlainName ((h.sections e he).names f hf)).append
    (.cons rfl (.cons rfl .nil))).append (.write f.2)

theorem of_tail {mayBeBlank : Bool} {t : List Char} (h : Tail mayBeBlank 0 [] t) :
    AreAllowed t := by
  cases h with
  | done => exact .nil
  | blankLine h => exact .cons rfl .nil

end AreAllowed

/-- The text of a sheet is read as the tokens of the sheet. -/
theorem ofText_write {s : Sheet} {t : List Char} (h : s.IsReadable)
    (ht : Tail s.mayBeBlank 0 [] t) :
    Token.ofText (s.write ++ String.ofList t) = .ok s.tokens := by
  have hchars : (s.write ++ String.ofList t).toList = s.write.toList ++ t := by
    rw [String.toList_append, String.toList_ofList]
  have hallowed : (s.write.toList ++ t).all isAllowed = true := by
    have hwrite : s.write.toList = Lexer.writeSections s := String.toList_ofList
    rw [List.all_eq_true, hwrite]
    exact (AreAllowed.writeSections h).append (.of_tail ht)
  obtain ⟨s', hrun, htokens⟩ := run_write h ht
  unfold Token.ofText
  rw [hchars, if_pos hallowed, hrun]
  exact congrArg Except.ok htokens

/-! ## Nodes -/

def fieldNode (f : String × Cell) : Node × Node :=
  (.scalar .none true f.1, .scalar .none f.2.isPlain f.2.written)

def sectionNode (e : String × List (String × Cell)) : Node × Node :=
  (.scalar .none true e.1, .mapping .none (e.2.map fieldNode))

def Sheet.node (s : Sheet) : Node := .mapping .none (s.map sectionNode)

namespace Node

variable {handles : TagHandles} {rest : List Token}

theorem parseBlockNode_scalar (fuel : Nat) (plain : Bool) (text : String) :
    parseBlockNode handles (fuel + 2) (.scalar plain text :: rest)
      = .ok (.scalar .none plain text, rest) := rfl

theorem parseBlockEntries_fields (fields : List (String × Cell)) {fuel : Nat}
    (hfuel : fields.length + 4 ≤ fuel) :
    parseBlockEntries handles fuel (fields.flatMap fieldTokens ++ .blockEnd :: rest)
      = .ok (fields.map fieldNode, rest) := by
  induction fields generalizing fuel with
  | nil =>
    obtain ⟨fuel, rfl⟩ := Nat.exists_eq_add_of_le' hfuel
    rfl
  | cons f fields ih =>
    rw [List.length_cons] at hfuel
    obtain ⟨fuel, rfl⟩ := Nat.exists_eq_add_of_le' (Nat.le_of_add_left_le hfuel)
    have hrest : parseBlockEntries handles (fuel + 3)
        (fields.flatMap fieldTokens ++ .blockEnd :: rest) = .ok (fields.map fieldNode, rest) :=
      ih (by omega)
    rw [List.flatMap_cons, List.append_assoc]
    simp only [fieldTokens, List.cons_append, List.nil_append, Cell.token, parseBlockEntries,
      parseBlockNode_scalar, parseBlockValue, hrest, bind, Except.bind, pure, Except.pure]
    rfl

theorem parseNode_blockMapping {inBlock unindented : Bool} {fuel : Nat} {tokens : List Token}
    {entries : List (Node × Node)} (hblock : inBlock = true)
    (h : parseBlockEntries handles fuel tokens = .ok (entries, rest)) :
    parseNode handles inBlock unindented (fuel + 1) (.blockMappingStart :: tokens)
      = .ok (.mapping .none entries, rest) := by
  simp only [parseNode, takeProperties, hblock, if_true, h, bind, Except.bind, pure, Except.pure]

theorem parseBlockEntries_sections (s : Sheet) {fuel : Nat}
    (hfuel : (s.flatMap sectionTokens).length + 4 ≤ fuel) :
    parseBlockEntries handles fuel (s.flatMap sectionTokens ++ .blockEnd :: rest)
      = .ok (s.map sectionNode, rest) := by
  induction s generalizing fuel with
  | nil =>
    obtain ⟨fuel, rfl⟩ := Nat.exists_eq_add_of_le' hfuel
    rfl
  | cons e sheet ih =>
    -- The parser goes down four levels to the fields, and a section has more tokens than that.
    have hlength : (sectionTokens e).length = 4 * e.2.length + 5 := by
      simp [sectionTokens, fieldTokens, Nat.mul_comm]
    rw [List.flatMap_cons, List.length_append, hlength] at hfuel
    obtain ⟨fuel, rfl⟩ : ∃ n, fuel = n + 4 := Nat.exists_eq_add_of_le' (by omega)
    have hvalue (rest : List Token) : parseBlockValue handles (fuel + 3) (.value ::
        .blockMappingStart :: (e.2.flatMap fieldTokens ++ .blockEnd :: rest))
        = .ok (.mapping .none (e.2.map fieldNode), rest) :=
      parseNode_blockMapping rfl (parseBlockEntries_fields e.2 (by omega))
    have hrest : parseBlockEntries handles (fuel + 3)
        (sheet.flatMap sectionTokens ++ .blockEnd :: rest) = .ok (sheet.map sectionNode, rest) :=
      ih (by omega)
    rw [List.flatMap_cons, List.append_assoc]
    simp only [sectionTokens, List.cons_append, List.nil_append, List.append_assoc,
      parseBlockEntries, parseBlockNode_scalar, hvalue, hrest, bind, Except.bind, pure, Except.pure]
    rfl

/-- The tokens of a sheet spell one document. -/
theorem ofTokens_tokens (s : Sheet) : ofTokens s.tokens = .ok (some s.node) := by
  have hentries : parseBlockEntries defaultHandles (4 * s.tokens.length + 3)
      (s.flatMap sectionTokens ++ [.blockEnd]) = .ok (s.map sectionNode, []) :=
    parseBlockEntries_sections s (by simp [Sheet.tokens]; omega)
  have hnode : parseNode defaultHandles true false (4 * s.tokens.length + 4) s.tokens
      = .ok (s.node, []) := parseNode_blockMapping rfl hentries
  have hdocument : ofTokens s.tokens
      = (parseNode defaultHandles true false (4 * s.tokens.length + 4) s.tokens >>= fun found =>
        if onlyEnds found.2 then .ok (some found.1) else .error .severalDocuments) := rfl
  rw [hdocument, hnode]
  rfl

end Node

/-! ## Values -/

def fieldLink (f : String × Cell) : Link × Link :=
  (.scalar none none true f.1, .scalar none none f.2.isPlain f.2.written)

def sectionLink (e : String × List (String × Cell)) : Link × Link :=
  (.scalar none none true e.1, .mapping none none (e.2.map fieldLink))

/-- A mapping of nodes without names is linked entry by entry. -/
theorem Link.ofEntries_map {α : Type} {names : Names} {l : List α} {node : α → Node × Node}
    {link : α → Link × Link} (hkey : ∀ a ∈ l, ofNode names (node a).1 = .ok ((link a).1, names))
    (hvalue : ∀ a ∈ l, ofNode names (node a).2 = .ok ((link a).2, names)) :
    ofEntries names (l.map node) = .ok (l.map link, names) := by
  induction l with
  | nil => rfl
  | cons a l ih =>
    rw [List.forall_mem_cons] at hkey hvalue
    simp only [List.map_cons, ofEntries, hkey.1, hvalue.1, ih hkey.2 hvalue.2, bind, Except.bind,
      pure, Except.pure]

theorem Link.ofNode_node (s : Sheet) :
    ofNode [] s.node = .ok (.mapping none none (s.map sectionLink), []) := by
  have hfields (e : String × List (String × Cell)) :
      ofEntries [] (e.2.map fieldNode) = .ok (e.2.map fieldLink, []) :=
    ofEntries_map (fun _ _ => rfl) fun _ _ => rfl
  have hsections : ofEntries [] (s.map sectionNode) = .ok (s.map sectionLink, []) := by
    refine ofEntries_map (fun _ _ => rfl) fun e _ => ?_
    simp only [sectionNode, sectionLink, ofNode, Properties.none, Names.declare, hfields, bind,
      Except.bind, pure, Except.pure]
  simp only [Sheet.node, ofNode, Properties.none, Names.declare, hsections, bind, Except.bind, pure,
    Except.pure]

namespace Value

variable {targets : List (Nat × Link)} {depth : Nat}

theorem ofLink_scalar {plain : Bool} {text : String} {v : Value}
    (h : ofScalar none plain text = .ok v) :
    ofLink targets depth (.scalar none none plain text) = pure v := by
  rw [ofLink]
  simp only [follow, pure_bind, h]

section Mapping

variable {α : Type} {l : List α} {link : α → Link × Link} (name : α → String) (value : α → Value)

/-- Entries whose keys are distinct texts are gathered in their order. -/
theorem foldlM_entries {step : List (Value × Value) → Link × Link → Build (List (Value × Value))}
    (hstep : ∀ a ∈ l, ∀ done, lookup (.text (name a)) done = none →
      step done (link a) = pure (done ++ [(.text (name a), value a)]))
    (hdistinct : (l.map name).Nodup) {done : List (Value × Value)}
    (hnew : ∀ a ∈ l, lookup (.text (name a)) done = none) :
    (l.map link).foldlM step done = pure (done ++ l.map fun a => (.text (name a), value a)) := by
  induction l generalizing done with
  | nil => simp
  | cons a l ih =>
    rw [List.map_cons, List.nodup_cons] at hdistinct
    rw [List.forall_mem_cons] at hstep hnew
    have hstill : ∀ b ∈ l,
        lookup (.text (name b)) (done ++ [(.text (name a), value a)]) = none := by
      intro b hb
      have hne : name a ≠ name b := fun heq => hdistinct.1 (heq ▸ List.mem_map_of_mem hb)
      have hdone := lookup_eq_none_iff.mp (hnew.2 b hb)
      rw [lookup_eq_none_iff, List.forall_mem_append]
      exact ⟨hdone, by simpa using hne⟩
    rw [List.map_cons, List.foldlM_cons, hstep.1 done hnew.1, pure_bind,
      ih hstep.2 hdistinct.2 hstill, List.append_assoc]
    rfl

variable {name value}

/-- A mapping whose keys are distinct texts is built entry by entry. -/
theorem ofLink_mapping (hkey : ∀ a ∈ l, ofLink targets depth (link a).1 = pure (.text (name a)))
    (hvalue : ∀ a ∈ l, ofLink targets depth (link a).2 = pure (value a))
    (hdistinct : (l.map name).Nodup) :
    ofLink targets (depth + 1) (.mapping none none (l.map link))
      = pure (.mapping (l.map fun a => (.text (name a), value a))) := by
  rw [ofLink]
  simp only [follow, pure_bind]
  rw [foldlM_entries name value ?_ hdistinct fun _ _ => rfl, pure_bind]
  · rfl
  · intro a ha done hnew
    simp only [hkey a ha, hvalue a ha, pure_bind, hnew]
    rfl

end Mapping

/-- What is written for a value means the value. -/
theorem ofScalar_cell {cell : Cell} (h : cell.isLegible = true) :
    ofScalar none cell.isPlain cell.written = .ok cell.toValue := by
  cases cell with
  | integer n =>
    have hmeaning : plainMeaning (toString n) = .ok (.integer n) := plainMeaning_integer h
    show (plainMeaning (toString n)).map ofMeaning = _
    rw [hmeaning]
    rfl
  | bool b => cases b <;> rfl
  | text s =>
    rw [ofScalar, Cell.isPlain, Cell.written]
    cases hplain : isWrittenPlain s with
    | false => rfl
    | true =>
      simp only [isWrittenPlain, Bool.and_eq_true, Bool.not_eq_true'] at hplain
      rw [if_pos rfl, plainMeaning_of_not_ambiguous hplain.2.1]
      rfl

theorem ofScalar_name {name : String} (h : isPlainName name = true) :
    ofScalar none true name = .ok (.text name) := by
  simp only [isPlainName, Bool.and_eq_true, Bool.not_eq_true'] at h
  rw [ofScalar, if_pos rfl, plainMeaning_of_not_ambiguous h.1.1]
  rfl

theorem ofLink_sheet {s : Sheet} (h : s.IsReadable) :
    ofLink targets (depth + 2) (.mapping none none (s.map sectionLink)) = pure s.toValue := by
  have hfields : ∀ e ∈ s, ofLink targets (depth + 1) (sectionLink e).2
      = pure (.mapping (e.2.map fun f => (.text f.1, f.2.toValue))) := by
    intro e he
    have hsection := h.sections e he
    exact ofLink_mapping (fun f hf => ofLink_scalar (ofScalar_name (hsection.names f hf)))
      (fun f hf => ofLink_scalar (ofScalar_cell (hsection.legible f hf))) hsection.distinct
  exact ofLink_mapping (fun e he => ofLink_scalar (ofScalar_name (h.sections e he).name)) hfields
    h.distinct

/-- The text of a sheet is read as the value that the sheet stands for. -/
theorem parse_write {s : Sheet} {t : List Char} (h : s.IsReadable) (ht : Tail s.mayBeBlank 0 [] t) :
    parse (s.write ++ String.ofList t) = .ok s.toValue := by
  have hbuild (l : Link) (n : Nat) : (ofLink l.targets maxDepth
      (.mapping none none (s.map sectionLink))).run n = .ok (s.toValue, n) := by
    rw [maxDepth, ofLink_sheet h]
    rfl
  rw [parse, ofText_write h ht]
  simp only [bind, Except.bind, Node.ofTokens_tokens, ofNode, Link.ofNode_node, hbuild, pure,
    Except.pure]

/-! ## What a sheet says -/

section Named

variable {α : Type} {l : List α} {name : α → String} {value : α → Value}

theorem named_map (h : (l.map name).Nodup) : Named (l.map fun a => (.text (name a), value a)) where
  texts e he := by
    obtain ⟨a, -, rfl⟩ := List.mem_map.mp he
    exact ⟨name a, rfl⟩
  once := by
    refine List.pairwise_map.mpr ((List.pairwise_map.mp h).imp ?_)
    intro a b hne key ha hb
    exact hne ((Value.text.inj ha).trans (Value.text.inj hb).symm)

theorem lookup_map (key : String) : lookup (.text key) (l.map fun a => (.text (name a), value a))
    = (l.find? (name · == key)).map value := by
  induction l with
  | nil => rfl
  | cons a l ih =>
    rw [List.map_cons, List.find?_cons]
    by_cases h : name a = key
    · subst h
      rw [lookup_cons_of_eq, beq_self_eq_true]
      rfl
    · rw [lookup_cons_of_ne (by simpa using h), ih, beq_eq_false_iff_ne.mpr h]

end Named

def ofFields (fields : List (String × Cell)) : Value :=
  .mapping (fields.map fun f => (.text f.1, f.2.toValue))

/-- What a sheet has under a name is the section of the name. -/
theorem get?_toValue (s : Sheet) (key : String) :
    s.toValue.get? key = (s.find? (·.1 == key)).map fun e => ofFields e.2 :=
  lookup_map key

theorem get?_ofFields (fields : List (String × Cell)) (key : String) :
    (ofFields fields).get? key = (fields.find? (·.1 == key)).map fun f => f.2.toValue :=
  lookup_map key

theorem isTable_toValue {s : Sheet} (h : s.IsReadable) : s.toValue.IsTable :=
  ⟨_, rfl, named_map h.distinct⟩

theorem isTable_of_get?_toValue {s : Sheet} (h : s.IsReadable) {key : String} {v : Value}
    (hv : s.toValue.get? key = some v) : v.IsTable := by
  rw [get?_toValue, Option.map_eq_some_iff] at hv
  obtain ⟨e, he, rfl⟩ := hv
  exact ⟨_, rfl, named_map (h.sections e (List.mem_of_find?_eq_some he)).distinct⟩

end Value

end StreamDispatch.Yaml
