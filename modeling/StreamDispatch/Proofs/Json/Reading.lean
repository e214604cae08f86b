import StreamDispatch.Proofs.Dictionary
import StreamDispatch.Proofs.Json.Scalar

set_option autoImplicit false

/-! # JSON that is read back

A value without fractions is read back from the text that is written for it (`parse?_pretty`). The
reader takes the value from the front, whatever follows that does not go on with a number, and an
allowance of the length of the text is enough for it (`ReadsBack`). This is shown by induction on
the value, and for the items and the members behind the first one by induction on their list. -/

namespace StreamDispatch.Json

variable {v : Json} {cs cs' rest : List Char} {depth fuel : Nat}

/-- A value without fractions, whose integers are in range and whose objects have their members in
order. -/
inductive Canonical : Json → Prop
  | null : Canonical .null
  | bool (b : Bool) : Canonical (.bool b)
  | integer {n : Int} (range : integerRange n = true) : Canonical (.integer n)
  | string (s : String) : Canonical (.string s)
  | array {items : List Json} (canonical : ∀ v ∈ items, Canonical v) : Canonical (.array items)
  | object {members : List (String × Json)} (sorted : members.Pairwise fun a b => a.1 < b.1)
      (canonical : ∀ m ∈ members, Canonical m.2) : Canonical (.object members)

/-! ## White space -/

theorem skipSpace_cons {c : Char} (hc : c ∉ [' ', '\n', '\t', '\r']) :
    skipSpace (c :: cs) = c :: cs := by
  simp only [List.mem_cons, List.not_mem_nil, or_false, not_or] at hc
  simp [skipSpace, hc]

theorem skipSpace_blank : skipSpace (' ' :: cs) = skipSpace cs := rfl

theorem skipSpace_newline : skipSpace (newline depth ++ cs) = skipSpace cs := by
  have hblanks (n : Nat) : skipSpace (List.replicate n ' ' ++ cs) = skipSpace cs := by
    induction n with
    | zero => rfl
    | succ n ih => exact ih
  exact hblanks (2 * depth)

/-- White space in front of a value makes no difference. -/
theorem readValue_congr (h : skipSpace cs = skipSpace cs') :
    readValue fuel cs = readValue fuel cs' := by
  cases fuel with
  | zero => rfl
  | succ fuel => rw [readValue, readValue, h]

theorem readItems_congr (h : skipSpace cs = skipSpace cs') :
    readItems fuel cs = readItems fuel cs' := by
  cases fuel with
  | zero => rfl
  | succ fuel => rw [readItems, readItems, readValue_congr h]

theorem readMembers_congr (h : skipSpace cs = skipSpace cs') :
    readMembers fuel cs = readMembers fuel cs' := by
  cases fuel with
  | zero => rfl
  | succ fuel => rw [readMembers, readMembers, h]

/-! ## What is read from the front -/

/-- The value is read from the front of its text, and the rest is left. -/
def ReadsBack (v : Json) : Prop :=
  ∀ depth fuel rest, (writePretty depth v).length ≤ fuel → EndsNumber rest →
    readValue fuel (writePretty depth v ++ rest) = some (v, rest)

/-- The characters with which no value begins: white space, and the end of an array. -/
def notOpening : List Char := [' ', '\n', '\t', '\r', ']']

theorem not_mem_of_head_toString {c : Char} (hc : c = '-' ∨ c.isDigit = true) {ds : List Char}
    (hds : ∀ d ∈ ds, d ≠ '-' ∧ d.isDigit = false) : c ∉ ds := by
  intro hmem
  rcases hc with rfl | hdigit
  · exact (hds _ hmem).1 rfl
  · rw [(hds c hmem).2] at hdigit
    cases hdigit

theorem exists_head_writePretty (h : Canonical v) (depth : Nat) :
    ∃ c cs, writePretty depth v = c :: cs ∧ c ∉ notOpening := by
  cases h with
  | null => exact ⟨'n', _, rfl, by decide⟩
  | bool b => cases b with
    | false => exact ⟨'f', _, rfl, by decide⟩
    | true => exact ⟨'t', _, rfl, by decide⟩
  | integer range =>
    obtain ⟨c, cs, hcs, hc⟩ := Number.exists_head_toString _
    exact ⟨c, cs, hcs, not_mem_of_head_toString hc (by simp [notOpening])⟩
  | string s => exact ⟨'"', _, rfl, by decide⟩
  | @array items _ => cases items with
    | nil => exact ⟨'[', _, rfl, by decide⟩
    | cons v items => exact ⟨'[', _, rfl, by decide⟩
  | @object members _ _ => cases members with
    | nil => exact ⟨'\x7b', _, rfl, by decide⟩
    | cons m members => exact ⟨'\x7b', _, rfl, by decide⟩

theorem skipSpace_writePretty (h : Canonical v) :
    skipSpace (writePretty depth v ++ rest) = writePretty depth v ++ rest := by
  obtain ⟨c, cs, hcs, hc⟩ := exists_head_writePretty h depth
  rw [hcs]
  exact skipSpace_cons fun hmem => hc (List.mem_append_left [']'] hmem)

/-- The text of a value is not empty, so there is an allowance to begin with. -/
theorem readsBack_of_succ (h : Canonical v)
    (hsucc : ∀ depth fuel rest, (writePretty depth v).length ≤ fuel + 1 → EndsNumber rest →
      readValue (fuel + 1) (writePretty depth v ++ rest) = some (v, rest)) : ReadsBack v := by
  intro depth fuel rest hfuel hrest
  cases fuel with
  | zero =>
    obtain ⟨c, cs, hcs, -⟩ := exists_head_writePretty h depth
    rw [hcs] at hfuel
    cases hfuel
  | succ fuel => exact hsucc depth fuel rest hfuel hrest

/-! ## Scalars -/

theorem writeString_append {s : String} :
    writeString s ++ rest = '"' :: (s.toList.flatMap escapeChar ++ '"' :: rest) := by
  simp [writeString]

theorem readsBack_bool (b : Bool) : ReadsBack (.bool b) := by
  refine readsBack_of_succ (.bool b) fun depth fuel rest _ _ => ?_
  cases b <;> rfl

theorem readsBack_string (s : String) : ReadsBack (.string s) := by
  refine readsBack_of_succ (.string s) fun depth fuel rest _ _ => ?_
  have htext : writePretty depth (.string s) = writeString s := rfl
  rw [htext, writeString_append, readValue, skipSpace_cons (by decide)]
  simp only
  rw [readChars_flatMap_escapeChar, Option.map_some, String.ofList_toList]

theorem readsBack_integer {n : Int} (hn : integerRange n = true) : ReadsBack (.integer n) := by
  refine readsBack_of_succ (.integer hn) fun depth fuel rest _ hrest => ?_
  have htext : writePretty depth (.integer n) = (toString n).toList := rfl
  obtain ⟨c, cs, hcs, hc⟩ := Number.exists_head_toString n
  have hne {d : Char} (hd : d ≠ '-' ∧ d.isDigit = false) : c ≠ d := by
    have hmem : c ∉ [d] := not_mem_of_head_toString hc (by simpa using hd)
    simpa using hmem
  rw [readValue, skipSpace_writePretty (.integer hn), htext, ← readNumber_toString hn hrest, hcs]
  split
  · next heq => exact absurd (List.cons.inj heq).1 (hne (by decide))
  · next heq => exact absurd (List.cons.inj heq).1 (hne (by decide))
  · next heq => exact absurd (List.cons.inj heq).1 (hne (by decide))
  · next heq => exact absurd (List.cons.inj heq).1 (hne (by decide))
  · next heq => exact absurd (List.cons.inj heq).1 (hne (by decide))
  · next heq => exact absurd (List.cons.inj heq).1 (hne (by decide))
  · rfl

/-! ## Arrays -/

section Arrays

variable {items : List Json} {rest' : List Char} {outer : Nat}

theorem readItems_last (hv : readValue fuel cs = some (v, rest))
    (hend : skipSpace rest = ']' :: rest') : readItems (fuel + 1) cs = some ([v], rest') := by
  rw [readItems, hv]
  simp only [bind, Option.bind_some, hend]

theorem readItems_cons (hv : readValue fuel cs = some (v, rest))
    (hmore : skipSpace rest = ',' :: rest')
    (hitems : readItems fuel rest' = some (items, cs')) :
    readItems (fuel + 1) cs = some (v :: items, cs') := by
  rw [readItems, hv]
  simp only [bind, Option.bind_some, hmore, hitems]
  rfl

theorem writeItems_cons_append : writeItems depth (v :: items) ++ rest
    = ',' :: (newline depth ++ (writePretty depth v ++ (writeItems depth items ++ rest))) := by
  simp [writeItems]

theorem endsNumber_writeItems : EndsNumber (writeItems depth items ++ (newline outer ++ rest)) := by
  intro c hc
  cases items <;> cases hc <;> decide

/-- Items are read from the front, one after the other, up to the end of their array. -/
theorem readItems_writeItems (hv : ReadsBack v) (hitems : ∀ w ∈ items, ReadsBack w)
    (hfuel : (writePretty depth v).length + (writeItems depth items).length < fuel) :
    readItems fuel
        (writePretty depth v ++ (writeItems depth items ++ (newline outer ++ ']' :: rest)))
      = some (v :: items, rest) := by
  induction items generalizing v fuel with
  | nil =>
    obtain ⟨fuel, rfl⟩ : ∃ n, fuel = n + 1 := ⟨fuel - 1, by omega⟩
    refine readItems_last (hv depth fuel _ (by omega) endsNumber_writeItems) ?_
    rw [writeItems, List.nil_append, skipSpace_newline, skipSpace_cons (by decide)]
  | cons w items ih =>
    obtain ⟨hw, hrest⟩ := List.forall_mem_cons.mp hitems
    obtain ⟨fuel, rfl⟩ : ∃ n, fuel = n + 1 := ⟨fuel - 1, by omega⟩
    refine readItems_cons (hv depth fuel _ (by omega) endsNumber_writeItems)
      (by rw [writeItems_cons_append]; exact skipSpace_cons (by decide)) ?_
    rw [readItems_congr skipSpace_newline]
    refine ih hw hrest ?_
    rw [writeItems] at hfuel
    simp only [List.length_cons, List.length_append] at hfuel
    omega

theorem readsBack_array (hitems : ∀ v ∈ items, Canonical v ∧ ReadsBack v) :
    ReadsBack (.array items) := by
  refine readsBack_of_succ (.array fun v hv => (hitems v hv).1) fun depth fuel rest hfuel _ => ?_
  cases items with
  | nil => rfl
  | cons v items =>
    obtain ⟨hv, hrest⟩ := List.forall_mem_cons.mp hitems
    have htext : writePretty depth (.array (v :: items)) ++ rest = '[' :: (newline (depth + 1)
        ++ (writePretty (depth + 1) v ++ (writeItems (depth + 1) items
          ++ (newline depth ++ ']' :: rest)))) := by
      simp [writePretty]
    have hallowed : (writePretty (depth + 1) v).length + (writeItems (depth + 1) items).length
        < fuel := by
      rw [writePretty] at hfuel
      simp only [List.length_cons, List.length_append, List.length_nil] at hfuel
      omega
    obtain ⟨c, cs, hcs, hc⟩ := exists_head_writePretty hv.1 (depth + 1)
    rw [htext, readValue, skipSpace_cons (by decide)]
    simp only
    rw [skipSpace_newline, skipSpace_writePretty hv.1]
    split
    · next heq =>
      rw [hcs] at heq
      cases heq
      exact absurd (by decide) hc
    · rw [readItems_writeItems hv.2 (fun w hw => (hrest w hw).2) hallowed]
      rfl

end Arrays

/-! ## Objects -/

section Objects

variable {k : String} {members : List (String × Json)} {rest' : List Char} {outer : Nat}

/-- The name of a member is taken from the front, and its value is read after the colon. -/
theorem readMembers_last (hv : readValue fuel cs = some (v, rest))
    (hend : skipSpace rest = '\x7d' :: rest') :
    readMembers (fuel + 1) (writeString k ++ ':' :: ' ' :: cs) = some ([(k, v)], rest') := by
  have hvalue := (readValue_congr skipSpace_blank).trans hv
  rw [readMembers, writeString_append, skipSpace_cons (by decide)]
  simp only [bind, readChars_flatMap_escapeChar, Option.bind_some]
  rw [skipSpace_cons (by decide)]
  simp only [hvalue, Option.bind_some, hend, String.ofList_toList]

theorem readMembers_cons (hv : readValue fuel cs = some (v, rest))
    (hmore : skipSpace rest = ',' :: rest')
    (hmembers : readMembers fuel rest' = some (members, cs')) :
    readMembers (fuel + 1) (writeString k ++ ':' :: ' ' :: cs)
      = some ((k, v) :: members, cs') := by
  have hvalue := (readValue_congr skipSpace_blank).trans hv
  rw [readMembers, writeString_append, skipSpace_cons (by decide)]
  simp only [bind, readChars_flatMap_escapeChar, Option.bind_some]
  rw [skipSpace_cons (by decide)]
  simp only [hvalue, Option.bind_some, hmore, hmembers, String.ofList_toList]
  rfl

theorem writeMembers_cons_append : writeMembers depth ((k, v) :: members) ++ rest
    = ',' :: (newline depth ++ (writeString k ++ ':' :: ' ' :: (writePretty depth v
      ++ (writeMembers depth members ++ rest)))) := by
  simp [writeMembers]

theorem endsNumber_writeMembers :
    EndsNumber (writeMembers depth members ++ (newline outer ++ rest)) := by
  intro c hc
  cases members <;> cases hc <;> decide

/-- Members are read from the front, one after the other, up to the end of their object. -/
theorem readMembers_writeMembers (hv : ReadsBack v) (hmembers : ∀ m ∈ members, ReadsBack m.2)
    (hfuel : (writePretty depth v).length + (writeMembers depth members).length < fuel) :
    readMembers fuel (writeString k ++ ':' :: ' ' :: (writePretty depth v
        ++ (writeMembers depth members ++ (newline outer ++ '\x7d' :: rest))))
      = some ((k, v) :: members, rest) := by
  induction members generalizing k v fuel with
  | nil =>
    obtain ⟨fuel, rfl⟩ : ∃ n, fuel = n + 1 := ⟨fuel - 1, by omega⟩
    refine readMembers_last (hv depth fuel _ (by omega) endsNumber_writeMembers) ?_
    rw [writeMembers, List.nil_append, skipSpace_newline, skipSpace_cons (by decide)]
  | cons m members ih =>
    obtain ⟨k', w⟩ := m
    obtain ⟨hw, hrest⟩ := List.forall_mem_cons.mp hmembers
    obtain ⟨fuel, rfl⟩ : ∃ n, fuel = n + 1 := ⟨fuel - 1, by omega⟩
    refine readMembers_cons (hv depth fuel _ (by omega) endsNumber_writeMembers)
      (by rw [writeMembers_cons_append]; exact skipSpace_cons (by decide)) ?_
    rw [readMembers_congr skipSpace_newline]
    refine ih hw hrest ?_
    rw [writeMembers] at hfuel
    simp only [List.length_cons, List.length_append] at hfuel
    omega

theorem ofMembers_of_sorted (h : members.Pairwise fun a b => a.1 < b.1) :
    ofMembers members = .object members := by
  rw [ofMembers, Dictionary.ofList_of_perm (d := ⟨members, h⟩) (.refl _)]

theorem readsBack_object (hsorted : members.Pairwise fun a b => a.1 < b.1)
    (hmembers : ∀ m ∈ members, Canonical m.2 ∧ ReadsBack m.2) : ReadsBack (.object members) := by
  refine readsBack_of_succ (.object hsorted fun m hm => (hmembers m hm).1)
    fun depth fuel rest hfuel _ => ?_
  cases members with
  | nil => rfl
  | cons m members =>
    obtain ⟨k, v⟩ := m
    obtain ⟨⟨-, hv⟩, hrest⟩ := List.forall_mem_cons.mp hmembers
    have htext : writePretty depth (.object ((k, v) :: members)) ++ rest
        = '\x7b' :: (newline (depth + 1) ++ (writeString k ++ ':' :: ' ' ::
          (writePretty (depth + 1) v ++ (writeMembers (depth + 1) members
            ++ (newline depth ++ '\x7d' :: rest))))) := by
      simp [writePretty]
    have hallowed : (writePretty (depth + 1) v).length
        + (writeMembers (depth + 1) members).length < fuel := by
      rw [writePretty] at hfuel
      simp only [List.length_cons, List.length_append, List.length_nil] at hfuel
      omega
    rw [htext, readValue, skipSpace_cons (by decide)]
    simp only
    rw [skipSpace_newline, writeString_append, skipSpace_cons (by decide), ← writeString_append]
    split
    · next heq =>
      rw [writeString_append] at heq
      cases heq
    · rw [readMembers_writeMembers hv (fun w hw => (hrest w hw).2) hallowed, Option.map_some,
        ofMembers_of_sorted hsorted]

end Objects

/-! ## Values -/

theorem Canonical.readsBack (h : Canonical v) : ReadsBack v := by
  induction h with
  | null => exact readsBack_of_succ .null fun _ _ _ _ _ => rfl
  | bool b => exact readsBack_bool b
  | integer range => exact readsBack_integer range
  | string s => exact readsBack_string s
  | array canonical ih => exact readsBack_array fun v hv => ⟨canonical v hv, ih v hv⟩
  | object sorted canonical ih =>
    exact readsBack_object sorted fun m hm => ⟨canonical m hm, ih m hm⟩

/-- What is written for a canonical value is read as the value. -/
theorem parse?_pretty (h : Canonical v) : parse? v.pretty = some v := by
  have hread := h.readsBack 0 (2 * (writePretty 0 v).length + 2) [] (by omega) nofun
  rw [List.append_nil] at hread
  simp only [parse?, pretty, String.toList_ofList, hread]
  rfl

end StreamDispatch.Json
