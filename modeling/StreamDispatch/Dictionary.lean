set_option autoImplicit false

/-! # Dictionaries with text keys

A finite map from texts to values, kept as its list of entries in ascending order of the keys. The
order is the order of code points, which is also the order of the UTF-8 bytes. Because the order is
part of the type, two dictionaries with the same entries are equal, whatever was inserted first. -/

namespace StreamDispatch

/-- A finite map from texts to values. -/
structure Dictionary (α : Type) where
  /-- The entries, in ascending order of their keys. -/
  entries : List (String × α)
  /-- No key occurs twice, and a smaller key stands first. -/
  sorted : entries.Pairwise (fun a b => a.1 < b.1)

namespace Dictionary

variable {α : Type}

def empty : Dictionary α := ⟨[], .nil⟩

instance : EmptyCollection (Dictionary α) := ⟨empty⟩

instance : Inhabited (Dictionary α) := ⟨empty⟩

instance [DecidableEq α] : DecidableEq (Dictionary α) := fun a b =>
  if h : a.entries = b.entries then .isTrue (by cases a; cases b; simp_all)
  else .isFalse (by intro hab; exact h (by rw [hab]))

/-! ## Looking up -/

def find (key : String) : List (String × α) → Option α
  | [] => none
  | (k, v) :: rest => if k = key then some v else find key rest

def get? (d : Dictionary α) (key : String) : Option α := find key d.entries

def contains (d : Dictionary α) (key : String) : Bool := (d.get? key).isSome

def toList (d : Dictionary α) : List (String × α) := d.entries

def keys (d : Dictionary α) : List String := d.entries.map Prod.fst

def size (d : Dictionary α) : Nat := d.entries.length

/-! ## Inserting and erasing -/

/-- Puts a value for a key into sorted entries, in place of the value it had. -/
def place (key : String) (value : α) : List (String × α) → List (String × α)
  | [] => [(key, value)]
  | (k, v) :: rest =>
    if key < k then (key, value) :: (k, v) :: rest
    else if key = k then (key, value) :: rest
    else (k, v) :: place key value rest

theorem mem_place {key : String} {value : α} {entries : List (String × α)} {e : String × α}
    (h : e ∈ place key value entries) : e = (key, value) ∨ e ∈ entries := by
  induction entries with
  | nil => simpa [place] using h
  | cons head rest ih =>
    obtain ⟨k, v⟩ := head
    simp only [place] at h
    split at h
    · simpa using h
    · split at h
      · simp only [List.mem_cons] at h ⊢; exact h.imp_right .inr
      · simp only [List.mem_cons] at h ⊢
        rcases h with h | h
        · exact .inr (.inl h)
        · exact (ih h).imp_right .inr

theorem sorted_place {key : String} {value : α} {entries : List (String × α)}
    (h : entries.Pairwise (fun a b => a.1 < b.1)) :
    (place key value entries).Pairwise (fun a b => a.1 < b.1) := by
  induction entries with
  | nil => simp [place]
  | cons head rest ih =>
    obtain ⟨k, v⟩ := head
    simp only [List.pairwise_cons] at h
    simp only [place]
    split
    · next hlt =>
      simp only [List.pairwise_cons, List.mem_cons]
      exact ⟨fun e he => he.elim (· ▸ hlt) fun he => String.lt_trans hlt (h.1 e he), h⟩
    · next hlt =>
      split
      · next heq => subst heq; simpa [List.pairwise_cons] using h
      · next hne =>
        simp only [List.pairwise_cons]
        refine ⟨fun e he => ?_, ih h.2⟩
        rcases mem_place he with rfl | he
        · exact String.not_le.mp fun hle => hne (String.le_antisymm hle (String.not_lt.mp hlt))
        · exact h.1 e he

/-- The dictionary with a value for a key, in place of the value it had. -/
def insert (d : Dictionary α) (key : String) (value : α) : Dictionary α :=
  ⟨place key value d.entries, sorted_place d.sorted⟩

def erase (d : Dictionary α) (key : String) : Dictionary α :=
  ⟨d.entries.filter (·.1 ≠ key), d.sorted.filter _⟩

/-- The dictionary of a list of entries, of which the last with a key counts. -/
def ofList (entries : List (String × α)) : Dictionary α :=
  entries.foldl (fun d e => d.insert e.1 e.2) empty

/-- The dictionary with every value replaced by what a function makes of it. -/
def mapValues {β : Type} (f : α → β) (d : Dictionary α) : Dictionary β :=
  ⟨d.entries.map fun e => (e.1, f e.2), by simpa [List.pairwise_map] using d.sorted⟩

/-! ## What each operation does to a look-up -/

theorem find_place (key : String) (value : α) (entries : List (String × α)) (k : String) :
    find k (place key value entries) = if k = key then some value else find k entries := by
  induction entries with
  | nil => simp [place, find, eq_comm]
  | cons head rest ih =>
    obtain ⟨k', v'⟩ := head
    simp only [place]
    split
    · simp [find, eq_comm]
    · split
      · next heq =>
        subst heq
        by_cases hk : key = k
        · simp [find, hk]
        · simp [find, hk, Ne.symm hk]
      · next hne =>
        simp only [find, ih]
        by_cases hk' : k' = k
        · subst hk'
          simp [Ne.symm hne]
        · simp [hk']

theorem find_filter_ne (key : String) (entries : List (String × α)) (k : String) :
    find k (entries.filter (·.1 ≠ key)) = if k = key then none else find k entries := by
  induction entries with
  | nil => simp [find]
  | cons head rest ih =>
    obtain ⟨k', v'⟩ := head
    by_cases hk' : k' = key
    · subst hk'
      rw [List.filter_cons_of_neg (by simp), ih]
      by_cases hk : k' = k
      · simp [hk]
      · simp [find, hk, Ne.symm hk]
    · rw [List.filter_cons_of_pos (by simpa using hk')]
      simp only [find, ih]
      by_cases hk : k' = k
      · subst hk; simp [hk']
      · simp [hk]

@[simp] theorem get?_empty (key : String) : (empty : Dictionary α).get? key = none := rfl

@[simp] theorem get?_insert (d : Dictionary α) (key : String) (value : α) (k : String) :
    (d.insert key value).get? k = if k = key then some value else d.get? k :=
  find_place key value d.entries k

@[simp] theorem get?_erase (d : Dictionary α) (key k : String) :
    (d.erase key).get? k = if k = key then none else d.get? k :=
  find_filter_ne key d.entries k

end Dictionary

end StreamDispatch
