import Mathlib.Algebra.Ring.Int.Defs
import StreamDispatch.Breaker.Session
import StreamDispatch.Proofs.Breaker.Check

set_option autoImplicit false

/-! # What can happen to the checks of a breaker

An `Act` is anything that can happen to a session: a handler comes or goes, a check starts, is
cancelled or looks at the level, or the clock goes on by one tick. The clock waits for the checks
that are due, but what happens at one tick may happen in any order. What a session does when it is
advanced is a list of such acts (`plays_advance`).

Of an act a single check gets a `Signal` at most. Acts that give it none belong to other checks, and
leave it as it is (`act_eq_of_no_signal`). -/

namespace StreamDispatch.Breaker

namespace Session

/-! ## Acts -/

/-- Something that happens to a session. -/
inductive Act
  | increment
  | decrement
  | start (cancelled : Bool)
  | cancel (id : Nat)
  /-- A check that waits looks at the level. -/
  | look (id : Nat)
  | tick
  deriving DecidableEq, Repr

/-- The state of a check that waits. -/
def waiting? (s : Session) (id : Nat) : Option Waiting := s.waiting.find? (·.id == id)

/-- The session after a check has looked at the level. -/
def lookOf (s : Session) (id : Nat) : Session :=
  { s with waiting := s.waiting.filter (·.id != id) }.settle id (s.breaker.look s.now false)

/-- The session after an act, if it is possible. -/
def act (s : Session) : Act → Option Session
  | .increment => some s.increment
  | .decrement => some s.decrement
  | .start cancelled => some (s.start cancelled)
  | .cancel id => some (s.cancel id)
  | .look id => if (s.waiting? id).any (·.wake ≤ s.now) then some (s.lookOf id) else none
  | .tick => if s.waiting.all (s.now < ·.wake) then some { s with now := s.now + 1 } else none

/-- The session after some acts, if they are possible. -/
def play (s : Session) : List Act → Option Session
  | [] => some s
  | a :: acts => (s.act a).bind (·.play acts)

theorem play_append (s : Session) (acts acts' : List Act) :
    s.play (acts ++ acts') = (s.play acts).bind (·.play acts') := by
  induction acts generalizing s with
  | nil => rfl
  | cons a acts ih =>
    rw [List.cons_append, play, play]
    cases s.act a with
    | none => rfl
    | some s' => exact ih s'

variable {s s' : Session} {a : Act} {acts : List Act} {id : Nat}

theorem play_cons_eq_some : s.play (a :: acts) = some s' ↔
    ∃ s₁, s.act a = some s₁ ∧ s₁.play acts = some s' :=
  Option.bind_eq_some_iff

section Settle

variable (s) (id : Nat) (o : Breaker × Check × List Notice)

@[simp] theorem breaker_settle : (s.settle id o).breaker = o.1 := by
  obtain ⟨b, c, n⟩ := o
  cases c <;> rfl

@[simp] theorem started_settle : (s.settle id o).started = s.started := by
  obtain ⟨b, c, n⟩ := o
  cases c <;> rfl

/-- A check that waits further waits behind all others. -/
theorem waiting_settle : (s.settle id o).waiting = s.waiting ++
    match o.2.1 with
    | .stalled found wake => [⟨id, found, wake⟩]
    | _ => [] := by
  obtain ⟨b, c, n⟩ := o
  cases c with
  | passed => exact (List.append_nil _).symm
  | refused => exact (List.append_nil _).symm
  | stalled found wake => rfl

/-- A check that has looked waits behind all others, if it waits further. -/
theorem waiting_lookOf : (s.lookOf id).waiting = s.waiting.filter (·.id != id) ++
    match (s.breaker.look s.now false).2.1 with
    | .stalled found wake => [⟨id, found, wake⟩]
    | _ => [] :=
  waiting_settle ..

/-- A check that has ended is entered behind all others. -/
theorem ended_settle : (s.settle id o).ended = s.ended ++
    match o.2.1 with
    | .passed => [⟨id, .passed, s.now⟩]
    | .refused => [⟨id, .cancelled, s.now⟩]
    | .stalled _ _ => [] := by
  obtain ⟨b, c, n⟩ := o
  cases c with
  | passed => rfl
  | refused => rfl
  | stalled found wake => exact (List.append_nil _).symm

/-- The outcome of a check is no matter of any other. -/
theorem settle_of_ne {other : Nat} (hne : other ≠ id) :
    (s.settle id o).waiting? other = s.waiting? other
      ∧ (s.settle id o).verdict? other = s.verdict? other := by
  have hid : (id == other) = false := beq_false_of_ne (Ne.symm hne)
  rw [waiting?, waiting?, verdict?, verdict?, waiting_settle, ended_settle, List.find?_append,
    List.find?_append]
  cases o.2.1 <;> simp [hid]

/-- What has ended has ended for good. -/
theorem verdict?_settle {other : Nat} {e : Ended} (he : s.verdict? other = some e) :
    (s.settle id o).verdict? other = some e := by
  rw [verdict?, ended_settle, List.find?_append]
  rw [verdict?] at he
  rw [he, Option.some_or]

end Settle

/-- Whoever is not left out is found as before. -/
theorem find?_filter_ne {α : Type} (f : α → Nat) (l : List α) {id other : Nat}
    (hne : other ≠ id) : (l.filter (f · != id)).find? (f · == other) = l.find? (f · == other) := by
  rw [List.find?_filter]
  congr 1
  funext x
  by_cases hx : f x = other
  · simp [hx, hne]
  · simp [hx]

/-- Whoever is left out is not found. -/
theorem find?_filter_self {α : Type} (f : α → Nat) (l : List α) (id : Nat) :
    (l.filter (f · != id)).find? (f · == id) = none := by
  rw [List.find?_filter, List.find?_eq_none]
  intro x _
  simp

theorem cancel_eq (s : Session) (id : Nat) : s.cancel id =
    { s with
      waiting := s.waiting.filter (·.id != id)
      ended := s.ended ++ (s.waiting.filter (·.id == id)).map fun w => ⟨w.id, .cancelled, s.now⟩
      notices := s.notices ++ (s.waiting.filter (·.id == id)).map
        fun w => .stallCancelled w.found } := by
  rw [cancel, List.partition_eq_filter_filter]
  rfl

/-! ## What does not change -/

/-- The checks that were started have numbers, and no other numbers are known. -/
structure Numbered (s : Session) : Prop where
  waiting : ∀ w ∈ s.waiting, w.id < s.started
  ended : ∀ e ∈ s.ended, e.id < s.started

theorem Numbered.new (role partition : String) (config : Config) :
    Numbered (.new role partition config) where
  waiting _ := nofun
  ended _ := nofun

theorem Numbered.settle {o : Breaker × Check × List Notice} (hs : s.Numbered)
    (hid : id < s.started) : (s.settle id o).Numbered := by
  constructor
  · intro w hw
    rw [started_settle]
    rw [waiting_settle, List.mem_append] at hw
    rcases hw with hw | hw
    · exact hs.waiting w hw
    · cases ho : o.2.1 with
      | stalled found wake =>
        simp only [ho, List.mem_singleton] at hw
        rwa [hw]
      | _ => simp [ho] at hw
  · intro e he
    rw [started_settle]
    rw [ended_settle, List.mem_append] at he
    rcases he with he | he
    · exact hs.ended e he
    · cases ho : o.2.1 with
      | stalled found wake => simp [ho] at he
      | _ =>
        simp only [ho, List.mem_singleton] at he
        rwa [he]

theorem Numbered.of_le {started : Nat} (hs : s.Numbered) (hle : s.started ≤ started) :
    ({ s with started } : Session).Numbered where
  waiting w hw := Nat.lt_of_lt_of_le (hs.waiting w hw) hle
  ended e he := Nat.lt_of_lt_of_le (hs.ended e he) hle

theorem id_lt_of_waiting? (hs : s.Numbered) {w : Waiting} (hw : s.waiting? id = some w) :
    id < s.started := by
  have hid : w.id = id := by simpa using List.find?_some hw
  exact hid ▸ hs.waiting w (List.mem_of_find?_eq_some hw)

theorem act_look_eq_some : s.act (.look id) = some s' ↔
    ∃ w, s.waiting? id = some w ∧ w.wake ≤ s.now ∧ s' = s.lookOf id := by
  unfold act
  cases hfound : s.waiting? id with
  | none => simp [hfound]
  | some w =>
    by_cases hwake : w.wake ≤ s.now
    · simp [hfound, hwake, @eq_comm _ s']
    · simp [hfound, hwake]

theorem act_tick_eq_some : s.act .tick = some s' ↔
    (∀ w ∈ s.waiting, s.now < w.wake) ∧ s' = { s with now := s.now + 1 } := by
  unfold act
  rw [Option.ite_none_right_eq_some, Option.some.injEq, List.all_eq_true, @eq_comm _ s']
  simp only [decide_eq_true_eq]

/-- Checks keep their numbers, whatever happens. -/
theorem Numbered.act (hs : s.Numbered) (h : s.act a = some s') :
    s'.Numbered ∧ s.started ≤ s'.started := by
  cases a with
  | increment | decrement =>
    cases h
    exact ⟨⟨hs.waiting, hs.ended⟩, Nat.le_refl _⟩
  | start cancelled =>
    cases h
    rw [start, started_settle]
    exact ⟨(hs.of_le (Nat.le_succ _)).settle (Nat.lt_succ_self _), Nat.le_succ _⟩
  | cancel other =>
    cases h
    rw [cancel_eq]
    refine ⟨⟨?_, ?_⟩, Nat.le_refl _⟩
    · intro w hw
      exact hs.waiting w (List.mem_filter.mp hw).1
    · intro e he
      rcases List.mem_append.mp he with he | he
      · exact hs.ended e he
      · obtain ⟨w, hw, rfl⟩ := List.mem_map.mp he
        exact hs.waiting w (List.mem_filter.mp hw).1
  | look other =>
    obtain ⟨w, hw, -, rfl⟩ := act_look_eq_some.mp h
    have hid := id_lt_of_waiting? hs hw
    rw [lookOf, started_settle]
    refine ⟨Numbered.settle ⟨?_, hs.ended⟩ hid, Nat.le_refl _⟩
    intro w' hw'
    exact hs.waiting w' (List.mem_filter.mp hw').1
  | tick =>
    obtain ⟨-, rfl⟩ := act_tick_eq_some.mp h
    exact ⟨⟨hs.waiting, hs.ended⟩, Nat.le_refl _⟩

theorem Numbered.play (hs : s.Numbered) (h : s.play acts = some s') : s'.Numbered := by
  induction acts generalizing s with
  | nil =>
    cases h
    exact hs
  | cons a acts ih =>
    obtain ⟨s₁, ha, hacts⟩ := play_cons_eq_some.mp h
    exact ih (hs.act ha).1 hacts

theorem config_act (h : s.act a = some s') : s'.breaker.config = s.breaker.config := by
  cases a with
  | increment | decrement =>
    cases h
    rfl
  | start cancelled =>
    cases h
    rw [start, breaker_settle, config_check]
  | cancel other =>
    cases h
    rw [cancel_eq]
  | look other =>
    obtain ⟨w, -, -, rfl⟩ := act_look_eq_some.mp h
    rw [lookOf, breaker_settle, config_look]
  | tick =>
    obtain ⟨-, rfl⟩ := act_tick_eq_some.mp h
    rfl

/-- What has ended has ended for good. -/
theorem verdict?_act {e : Ended} (h : s.act a = some s') (he : s.verdict? id = some e) :
    s'.verdict? id = some e := by
  cases a with
  | increment | decrement =>
    cases h
    exact he
  | start cancelled =>
    cases h
    exact verdict?_settle _ _ _ he
  | cancel other =>
    cases h
    rw [cancel_eq, verdict?, List.find?_append]
    rw [verdict?] at he
    rw [he, Option.some_or]
  | look other =>
    obtain ⟨w, -, -, rfl⟩ := act_look_eq_some.mp h
    exact verdict?_settle _ _ _ he
  | tick =>
    obtain ⟨-, rfl⟩ := act_tick_eq_some.mp h
    exact he

/-- What a single check notices. -/
inductive Signal
  | increment
  | decrement
  /-- The check is cancelled. -/
  | cancel
  /-- The check looks at the level. -/
  | look
  | tick
  deriving DecidableEq, Repr

/-- What a check notices of an act. -/
def Act.signal? (id : Nat) : Act → Option Signal
  | .increment => some .increment
  | .decrement => some .decrement
  | .start _ => none
  | .cancel other => if other = id then some .cancel else none
  | .look other => if other = id then some .look else none
  | .tick => some .tick

/-- What a check notices of some acts. -/
def Act.signals (id : Nat) (acts : List Act) : List Signal := acts.filterMap (signal? id)

/-- By how much a signal raises the level. -/
def Signal.lift : Signal → Int
  | .increment => 1
  | .decrement => -1
  | _ => 0

/-- By how much signals raise the level. -/
def Signal.rise (v : List Signal) : Int := (v.map lift).sum

/-- For how long signals go on. -/
def Signal.ticks (v : List Signal) : Nat := v.count .tick

/-- How often a check looks at the level. -/
def Signal.looks (v : List Signal) : Nat := v.count .look

open Signal (rise ticks looks)

@[simp] theorem rise_nil : rise [] = 0 := rfl

@[simp] theorem rise_cons (x : Signal) (v : List Signal) : rise (x :: v) = x.lift + rise v := by
  rw [rise, List.map_cons, List.sum_cons]
  rfl

@[simp] theorem ticks_nil : ticks [] = 0 := rfl

@[simp] theorem ticks_cons (x : Signal) (v : List Signal) :
    ticks (x :: v) = ticks v + if x = .tick then 1 else 0 := by
  rw [ticks, List.count_cons]
  cases x <;> rfl

@[simp] theorem looks_nil : looks [] = 0 := rfl

@[simp] theorem looks_cons (x : Signal) (v : List Signal) :
    looks (x :: v) = looks v + if x = .look then 1 else 0 := by
  rw [looks, List.count_cons]
  cases x <;> rfl

@[simp] theorem signals_nil (id : Nat) : Act.signals id [] = [] := rfl

theorem signals_cons (id : Nat) (a : Act) (acts : List Act) :
    Act.signals id (a :: acts) = (a.signal? id).toList ++ Act.signals id acts := by
  rw [Act.signals, List.filterMap_cons]
  cases a.signal? id <;> rfl

/-- The level is raised and lowered by handlers alone, and time goes on with the clock alone. -/
theorem level_act (h : s.act a = some s') (id : Nat) :
    s'.breaker.level = s.breaker.level + rise (a.signal? id).toList
      ∧ s'.now = s.now + ticks (a.signal? id).toList := by
  cases a with
  | increment =>
    cases h
    exact ⟨rfl, rfl⟩
  | decrement =>
    cases h
    exact ⟨rfl, rfl⟩
  | start cancelled =>
    cases h
    rw [start, breaker_settle, level_check, now_settle]
    exact ⟨(Int.add_zero _).symm, rfl⟩
  | cancel other =>
    cases h
    rw [cancel_eq, Act.signal?]
    split
    · exact ⟨(Int.add_zero _).symm, rfl⟩
    · exact ⟨(Int.add_zero _).symm, rfl⟩
  | look other =>
    obtain ⟨w, -, -, rfl⟩ := act_look_eq_some.mp h
    rw [lookOf, breaker_settle, level_look, now_settle, Act.signal?]
    split
    · exact ⟨(Int.add_zero _).symm, rfl⟩
    · exact ⟨(Int.add_zero _).symm, rfl⟩
  | tick =>
    obtain ⟨-, rfl⟩ := act_tick_eq_some.mp h
    exact ⟨(Int.add_zero _).symm, rfl⟩

/-- What gives a check no signal leaves it as it is. -/
theorem act_eq_of_no_signal (hid : id < s.started) (h : s.act a = some s')
    (ha : a.signal? id = none) :
    s'.waiting? id = s.waiting? id ∧ s'.verdict? id = s.verdict? id := by
  cases a with
  | increment | decrement | tick => cases ha
  | start cancelled =>
    cases h
    exact settle_of_ne _ _ _ (Nat.ne_of_lt hid)
  | cancel other =>
    cases h
    have hne : id ≠ other := by
      rintro rfl
      simp [Act.signal?] at ha
    rw [cancel_eq, verdict?, verdict?, List.find?_append]
    refine ⟨find?_filter_ne Waiting.id _ hne, ?_⟩
    have hnone : ((s.waiting.filter (·.id == other)).map
        (fun w => (⟨w.id, .cancelled, s.now⟩ : Ended))).find? (·.id == id) = none := by
      rw [List.find?_eq_none]
      intro e he
      obtain ⟨w, hw, rfl⟩ := List.mem_map.mp he
      have hw' : w.id = other := by simpa using (List.mem_filter.mp hw).2
      simpa [hw'] using Ne.symm hne
    rw [hnone, Option.or_none]
  | look other =>
    obtain ⟨w, -, -, rfl⟩ := act_look_eq_some.mp h
    have hne : id ≠ other := by
      rintro rfl
      simp [Act.signal?] at ha
    obtain ⟨hwaiting, hverdict⟩ := settle_of_ne
      { s with waiting := s.waiting.filter (·.id != other) } other (s.breaker.look s.now false) hne
    exact ⟨hwaiting.trans (find?_filter_ne Waiting.id _ hne), hverdict⟩

end Session

end StreamDispatch.Breaker
