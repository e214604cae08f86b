import Mathlib.Data.List.Induction
import StreamDispatch.Completion

set_option autoImplicit false

/-! # Guards and what they are counted by

Guards are finalized by call or when they are dropped, they may be finalized again and marked at any
time, and a name may go over to a new guard, which drops the old one. Here every guard is followed
through a run by the calls it gets (`GuardSession.lives`), which are read off the run alone. A
session is what these lives say (`GuardSession.isToldBy_lives`): a guard counts as at work until the
first call that finalizes or drops it, and as processed from then on.

A name stands for one guard at most, because a new guard under the name drops the old one
(`GuardSession.oneEach_lives`). So an act changes the life of one guard, and takes at most that one
off the load. -/

namespace StreamDispatch.GuardSession

/-! ## Runs -/

/-- What a session is told to do with the guard of a name. -/
inductive Act
  | start (name : String)
  | finalize (name : String)
  | markTimedOut (name : String)
  | drop (name : String)
  deriving DecidableEq, Repr

def act (s : GuardSession) : Act → GuardSession
  | .start name => s.start name
  | .finalize name => (s.finalize name).1
  | .markTimedOut name => s.markTimedOut name
  | .drop name => (s.drop name).1

/-- A session after some acts, in which there was no guard at first. -/
def after (acts : List Act) : GuardSession := acts.foldl act empty

/-! ## Lives of guards -/

/-- What a guard is told. -/
inductive Call
  | finalize
  | markTimedOut
  | drop
  deriving DecidableEq, Repr

def Act.name : Act → String
  | .start name => name
  | .finalize name => name
  | .markTimedOut name => name
  | .drop name => name

/-- What an act tells the guard that has had the name until then. -/
def Act.call : Act → Call
  | .start _ => .drop
  | .finalize _ => .finalize
  | .markTimedOut _ => .markTimedOut
  | .drop _ => .drop

/-- The calls that acts make on the guard of a name, up to the one that drops it. -/
def callsOn (name : String) : List Act → List Call
  | [] => []
  | a :: acts =>
    if a.name = name then
      if a.call = .drop then [.drop] else a.call :: callsOn name acts
    else callsOn name acts

/-- A guard, by the name under which it was made and the calls it has got since. -/
structure Life where
  name : String
  calls : List Call
  deriving DecidableEq, Repr

/-- The lives of all guards that are made, in the order in which they are made. -/
def lives : List Act → List Life
  | [] => []
  | .start name :: acts => ⟨name, callsOn name acts⟩ :: lives acts
  | _ :: acts => lives acts

namespace Life

/-- Whether a guard is still there under a name. -/
def bears (l : Life) (name : String) : Bool := l.name == name && !l.calls.contains .drop

/-- Made, and neither finalized nor dropped. -/
def isAtWork (l : Life) : Bool := !l.calls.contains .finalize && !l.calls.contains .drop

/-- Finalized or dropped. -/
def isOver (l : Life) : Bool := l.calls.contains .finalize || l.calls.contains .drop

/-- The two flags of a guard, each by calls of its own. -/
def guard (l : Life) : CompletionGuard :=
  ⟨l.calls.contains .finalize, l.calls.contains .markTimedOut⟩

/-- The life of a guard with a call on a name, if the guard has that name. -/
def tell (name : String) (c : Call) (l : Life) : Life :=
  if l.bears name then { l with calls := l.calls ++ [c] } else l

end Life

/-- The guard that has a name. -/
def bearer? (name : String) (ls : List Life) : Option Life := ls.find? (·.bears name)

/-- The number of guards at work. -/
def working (ls : List Life) : Nat := ls.countP (·.isAtWork)

/-- The number of guards that have been finalized or dropped. -/
def ended (ls : List Life) : Nat := ls.countP (·.isOver)

variable {acts : List Act} {a : Act} {name n : String} {c : Call} {l : Life} {ls : List Life}
  {s : GuardSession}

namespace Life

theorem bears_iff : l.bears name = true ↔ l.name = name ∧ Call.drop ∉ l.calls := by
  simp [bears]

theorem isOver_eq (l : Life) : l.isOver = !l.isAtWork := by
  rw [isOver, isAtWork, Bool.not_and, Bool.not_not, Bool.not_not]

theorem isAtWork_of_bears (h : l.bears name = true) : l.isAtWork = !l.guard.finalized := by
  simp [isAtWork, guard, (bears_iff.mp h).2]

theorem tell_of_bears (h : l.bears name = true) :
    l.tell name c = { l with calls := l.calls ++ [c] } :=
  if_pos h

theorem tell_of_not_bears (h : ¬l.bears name = true) : l.tell name c = l := if_neg h

theorem tell_of_ne (h : l.bears n = true) (hne : n ≠ name) : l.tell name c = l :=
  tell_of_not_bears fun h' => hne ((bears_iff.mp h).1.symm.trans (bears_iff.mp h').1)

theorem guard_tell (h : l.bears name = true) : (l.tell name c).guard
    = ⟨l.guard.finalized || c == .finalize, l.guard.timedOut || c == .markTimedOut⟩ := by
  rw [tell_of_bears h]
  cases c <;> simp [guard]

theorem isAtWork_tell (h : l.bears name = true) :
    (l.tell name c).isAtWork = (l.isAtWork && c == .markTimedOut) := by
  rw [tell_of_bears h]
  cases c <;> simp [isAtWork]

/-- A guard keeps its name until it is dropped. -/
theorem bears_tell :
    (l.tell name c).bears n = true ↔ l.bears n = true ∧ ¬(n = name ∧ c = .drop) := by
  by_cases h : l.bears name = true
  · obtain ⟨hname, hkept⟩ := bears_iff.mp h
    rw [tell_of_bears h]
    simp only [bears_iff, List.mem_append, List.mem_singleton, hname, hkept, false_or,
      not_false_eq_true, and_true]
    constructor
    · rintro ⟨rfl, hcall⟩
      exact ⟨rfl, fun h => hcall h.2.symm⟩
    · rintro ⟨rfl, hcall⟩
      exact ⟨rfl, fun h => hcall ⟨rfl, h.symm⟩⟩
  · rw [tell_of_not_bears h]
    refine ⟨fun hl => ⟨hl, ?_⟩, And.left⟩
    rintro ⟨rfl, -⟩
    exact h hl

end Life

/-! ## One more act -/

theorem callsOn_concat (name : String) (acts : List Act) (a : Act) :
    callsOn name (acts ++ [a])
      = if a.name = name ∧ Call.drop ∉ callsOn name acts then callsOn name acts ++ [a.call]
        else callsOn name acts := by
  induction acts with
  | nil =>
    by_cases hname : a.name = name
    · by_cases hcall : a.call = .drop <;> simp [callsOn, hname, hcall]
    · simp [callsOn, hname]
  | cons b acts ih =>
    rw [List.cons_append, callsOn, callsOn, ih]
    by_cases hb : b.name = name
    · by_cases hcall : b.call = .drop
      · simp [hb, hcall]
      · have hne : Call.drop ≠ b.call := Ne.symm hcall
        simp only [hb, ↓reduceIte, hcall, List.mem_cons, hne, false_or]
        split <;> rfl
    · simp [hb]

/-- The guards that an act makes. -/
def made : Act → List Life
  | .start name => [⟨name, []⟩]
  | _ => []

/-- One more act goes on with the lives there are, and begins one if it makes a guard. -/
theorem lives_concat (acts : List Act) (a : Act) :
    lives (acts ++ [a]) = (lives acts).map (Life.tell a.name a.call) ++ made a := by
  induction acts with
  | nil => cases a <;> rfl
  | cons b acts ih =>
    cases b with
    | start name =>
      have hhead : Life.mk name (callsOn name (acts ++ [a]))
          = .tell a.name a.call ⟨name, callsOn name acts⟩ := by
        simp only [callsOn_concat, Life.tell, Life.bears_iff, eq_comm (a := name)]
        split <;> rfl
      rw [List.cons_append, lives, lives, ih, hhead]
      rfl
    | finalize | markTimedOut | drop => exact ih

/-! ## A name stands for one guard -/

/-- No two guards have one name. -/
def OneEach (ls : List Life) : Prop := ls.Pairwise fun l m => ∀ name, l.bears name → ¬m.bears name

theorem drop_mem_callsOn (h : l ∈ lives acts) : Call.drop ∈ callsOn l.name acts := by
  induction acts with
  | nil => cases h
  | cons a acts ih =>
    have hlater (h : l ∈ lives acts) : Call.drop ∈ callsOn l.name (a :: acts) := by
      rw [callsOn]
      split
      · split
        · exact List.mem_singleton_self _
        · exact List.mem_cons_of_mem _ (ih h)
      · exact ih h
    cases a with
    | start name =>
      rcases List.mem_cons.mp h with rfl | h
      · simp [callsOn, Act.name, Act.call]
      · exact hlater h
    | finalize | markTimedOut | drop => exact hlater h

/-- Of two guards that were made under one name the first has been dropped. -/
theorem oneEach_lives (acts : List Act) : OneEach (lives acts) := by
  induction acts with
  | nil => exact .nil
  | cons a acts ih =>
    cases a with
    | start name =>
      refine List.pairwise_cons.mpr ⟨fun m hm n hn hm' => ?_, ih⟩
      obtain ⟨rfl, hkept⟩ := Life.bears_iff.mp hn
      obtain ⟨hname, -⟩ := Life.bears_iff.mp hm'
      have hdrop := drop_mem_callsOn hm
      rw [hname] at hdrop
      exact hkept hdrop
    | finalize | markTimedOut | drop => exact ih

theorem bears_of_bearer? (h : bearer? name ls = some l) : l.bears name = true := by
  simpa using List.find?_some h

theorem map_tell_of_none (h : bearer? name ls = none) : ls.map (Life.tell name c) = ls := by
  refine (List.map_congr_left fun l hl => ?_).trans (List.map_id _)
  exact Life.tell_of_not_bears (List.find?_eq_none.mp h l hl)

/-- A name stands for the same guard after a call, unless the call drops that. -/
theorem bearer?_tell : bearer? n (ls.map (Life.tell name c))
    = if n = name ∧ c = .drop then none else (bearer? n ls).map (Life.tell name c) := by
  rw [bearer?, List.find?_map]
  split
  · next h =>
    have hnone : ls.find? ((·.bears n) ∘ Life.tell name c) = none :=
      List.find?_eq_none.mpr fun l _ hl => (Life.bears_tell.mp hl).2 h
    rw [hnone, Option.map_none]
  · next h =>
    have hsame : (·.bears n) ∘ Life.tell name c = (·.bears n) :=
      funext fun l => Bool.eq_iff_iff.mpr (Life.bears_tell.trans (and_iff_left h))
    rw [hsame, bearer?]

/-- The guard that a name stands for after a call on a name. -/
theorem guard_bearer?_tell : (bearer? n (ls.map (Life.tell name c))).map Life.guard
    = if n = name then
        if c = .drop then none else (bearer? name ls).map fun l => (l.tell name c).guard
      else (bearer? n ls).map Life.guard := by
  rw [bearer?_tell]
  by_cases hn : n = name
  · by_cases hc : c = .drop
    · simp [hn, hc]
    · simp only [hn, hc, and_false, ↓reduceIte, Option.map_map]
      rfl
  · rw [if_neg fun h => hn h.1, if_neg hn, Option.map_map]
    cases hl : bearer? n ls with
    | none => rfl
    | some l => exact congrArg (some ∘ Life.guard) (Life.tell_of_ne (bears_of_bearer? hl) hn)

/-! ## The load -/

/-- The load of a partition whose handlers have these guards. -/
def loadOf (ls : List Life) : Load := ⟨working ls, ⟨0, ended ls, 0, working ls⟩⟩

theorem working_add_ended (ls : List Life) : working ls + ended ls = ls.length := by
  simp only [working, ended, Life.isOver_eq]
  rw [List.length_eq_countP_add_countP (·.isAtWork)]
  simp

/-- A call takes at most one guard off the work: the one it is made on, if that is at work and not
just marked. -/
theorem working_tell (name : String) (h : OneEach ls) :
    working ls = working (ls.map (Life.tell name c))
      + if (bearer? name ls).any (·.isAtWork) ∧ c ≠ .markTimedOut then 1 else 0 := by
  induction ls with
  | nil => rfl
  | cons l ls ih =>
    obtain ⟨hothers, hrest⟩ := List.pairwise_cons.mp h
    by_cases hl : l.bears name = true
    · -- No other guard has the name, so all others stay as they are.
      have hsame : ls.map (Life.tell name c) = ls :=
        map_tell_of_none (List.find?_eq_none.mpr fun m hm => hothers m hm name hl)
      have hfind : bearer? name (l :: ls) = some l := List.find?_cons_of_pos hl
      rw [hfind, Option.any_some, List.map_cons, hsame, working, working, List.countP_cons,
        List.countP_cons, Life.isAtWork_tell hl]
      cases l.isAtWork <;> cases c <;> rfl
    · have hfind : bearer? name (l :: ls) = bearer? name ls := List.find?_cons_of_neg hl
      rw [hfind, List.map_cons, Life.tell_of_not_bears hl, working, working, List.countP_cons,
        List.countP_cons]
      have hrest := ih hrest
      rw [working, working] at hrest
      omega

/-- Whether a guard is finalized by call or by being dropped, the load is left by the first of these
calls and by no other. -/
theorem loadOf_tell (h : OneEach ls) (hl : bearer? name ls = some l) (hc : c ≠ .markTimedOut) :
    loadOf (ls.map (Life.tell name c)) = l.guard.drop (loadOf ls) := by
  have hworking := working_tell name (c := c) h
  have hlength := working_add_ended ls
  have hlength' := working_add_ended (ls.map (Life.tell name c))
  rw [List.length_map] at hlength'
  rw [hl, Option.any_some, Life.isAtWork_of_bears (bears_of_bearer? hl)] at hworking
  rw [CompletionGuard.drop, CompletionGuard.finalize]
  cases hfinal : l.guard.finalized with
  | true =>
    simp only [hfinal, Bool.not_true, Bool.false_eq_true, false_and, ↓reduceIte] at hworking ⊢
    obtain ⟨hw, ho⟩ : working (ls.map (Life.tell name c)) = working ls
      ∧ ended (ls.map (Life.tell name c)) = ended ls := by omega
    rw [loadOf, loadOf, hw, ho]
  | false =>
    simp only [hfinal, Bool.not_false, ne_eq, hc, not_false_eq_true, and_self, ↓reduceIte,
      Bool.false_eq_true] at hworking ⊢
    obtain ⟨hw, ho⟩ : (working (ls.map (Life.tell name c)) : Int) = working ls - 1
      ∧ ended (ls.map (Life.tell name c)) = ended ls + 1 := by omega
    rw [loadOf, loadOf, hw, ho]
    rfl

theorem loadOf_tell_marked (h : OneEach ls) :
    loadOf (ls.map (Life.tell name .markTimedOut)) = loadOf ls := by
  have hworking := working_tell name (c := .markTimedOut) h
  have hlength := working_add_ended ls
  have hlength' := working_add_ended (ls.map (Life.tell name .markTimedOut))
  rw [List.length_map] at hlength'
  rw [if_neg fun h => h.2 rfl] at hworking
  obtain ⟨hw, ho⟩ : working (ls.map (Life.tell name .markTimedOut)) = working ls
    ∧ ended (ls.map (Life.tell name .markTimedOut)) = ended ls := by omega
  rw [loadOf, loadOf, hw, ho]

theorem loadOf_append_made (name : String) (ls : List Life) :
    loadOf (ls ++ made (.start name)) = (loadOf ls).enter := by
  simp [loadOf, working, ended, made, Life.isAtWork, Life.isOver, Load.enter, Counters.count]

theorem guard_finalize (g : CompletionGuard) (l : Load) :
    (g.finalize l).1 = { g with finalized := true } := by
  obtain ⟨finalized, timedOut⟩ := g
  cases finalized <;> rfl

/-- Entering the load first and taking a guard off it afterwards comes to the same as the other way
round. -/
theorem drop_enter (g : CompletionGuard) (l : Load) : g.drop l.enter = (g.drop l).enter := by
  rw [CompletionGuard.drop, CompletionGuard.drop, CompletionGuard.finalize,
    CompletionGuard.finalize]
  split
  · rfl
  · simp only [Load.leave, Load.enter, Counters.count, Load.mk.injEq, Counters.mk.injEq, true_and]
    omega

/-! ## Sessions -/

/-- A session is what the lives of its guards say. -/
structure Follows (s : GuardSession) (ls : List Life) : Prop where
  load : s.load = loadOf ls
  guards : ∀ name, s.guards.get? name = (bearer? name ls).map Life.guard

theorem Follows.empty : GuardSession.empty.Follows [] := ⟨rfl, fun _ => rfl⟩

/-- A guard that is there stays under its name, with what a call makes of it. -/
theorem Follows.get?_insert (h : s.Follows ls) (hl : bearer? name ls = some l) (hc : c ≠ .drop)
    (n : String) : (s.guards.insert name (l.tell name c).guard).get? n
      = (bearer? n (ls.map (Life.tell name c))).map Life.guard := by
  rw [guard_bearer?_tell, Dictionary.get?_insert, h.guards n, if_neg hc, hl, Option.map_some]

theorem Follows.finalize (h : s.Follows ls) (hls : OneEach ls) (name : String) :
    (s.finalize name).1.Follows (ls.map (Life.tell name .finalize)) := by
  rw [GuardSession.finalize, h.guards name]
  cases hl : bearer? name ls with
  | none => rwa [map_tell_of_none hl]
  | some l =>
    have hguard : (l.guard.finalize s.load).1 = (l.tell name .finalize).guard := by
      rw [Life.guard_tell (bears_of_bearer? hl), guard_finalize]
      simp
    refine ⟨?_, fun n => ?_⟩
    · rw [loadOf_tell (c := .finalize) hls hl (by decide), ← h.load]
      rfl
    · rw [← h.get?_insert (c := .finalize) hl (by decide), ← hguard]
      rfl

theorem Follows.markTimedOut (h : s.Follows ls) (hls : OneEach ls) (name : String) :
    (s.markTimedOut name).Follows (ls.map (Life.tell name .markTimedOut)) := by
  rw [GuardSession.markTimedOut, h.guards name]
  cases hl : bearer? name ls with
  | none => rwa [map_tell_of_none hl]
  | some l =>
    have hguard : l.guard.markTimedOut = (l.tell name .markTimedOut).guard := by
      rw [Life.guard_tell (bears_of_bearer? hl), CompletionGuard.markTimedOut]
      simp
    refine ⟨?_, fun n => ?_⟩
    · rw [loadOf_tell_marked hls]
      exact h.load
    · rw [← h.get?_insert (c := .markTimedOut) hl (by decide), ← hguard]
      rfl

theorem Follows.drop (h : s.Follows ls) (hls : OneEach ls) (name : String) :
    (s.drop name).1.Follows (ls.map (Life.tell name .drop)) := by
  rw [GuardSession.drop, h.guards name]
  cases hl : bearer? name ls with
  | none => rwa [map_tell_of_none hl]
  | some l =>
    refine ⟨?_, fun n => ?_⟩
    · rw [loadOf_tell (c := .drop) hls hl (by decide), ← h.load]
      rfl
    · rw [guard_bearer?_tell, ← h.guards n, if_pos rfl]
      exact Dictionary.get?_erase ..

theorem Follows.start (h : s.Follows ls) (hls : OneEach ls) (name : String) :
    (s.start name).Follows (ls.map (Life.tell name .drop) ++ made (.start name)) := by
  refine ⟨?_, fun n => ?_⟩
  · rw [loadOf_append_made, GuardSession.start, h.guards name]
    cases hl : bearer? name ls with
    | none =>
      rw [map_tell_of_none hl, ← h.load]
      rfl
    | some l =>
      rw [loadOf_tell (c := .drop) hls hl (by decide), ← h.load, ← drop_enter]
      rfl
  · have hmade : bearer? n (ls.map (Life.tell name .drop) ++ made (.start name))
        = (bearer? n (ls.map (Life.tell name .drop))).or (bearer? n (made (.start name))) :=
      List.find?_append
    rw [hmade, Option.map_or, guard_bearer?_tell, ← h.guards n, if_pos rfl, GuardSession.start,
      Dictionary.get?_insert]
    by_cases hn : n = name
    · subst hn
      simp [bearer?, made, Life.bears, Life.guard, CompletionGuard.new]
    · simp [bearer?, made, Life.bears, hn, Ne.symm hn]

theorem Follows.act (h : s.Follows ls) (hls : OneEach ls) (a : Act) :
    (s.act a).Follows (ls.map (Life.tell a.name a.call) ++ made a) := by
  cases a with
  | start name => exact h.start hls name
  | finalize name => exact (List.append_nil _).symm ▸ h.finalize hls name
  | markTimedOut name => exact (List.append_nil _).symm ▸ h.markTimedOut hls name
  | drop name => exact (List.append_nil _).symm ▸ h.drop hls name

/-- After any run a session is what the lives of its guards say. -/
theorem follows_lives (acts : List Act) : (after acts).Follows (lives acts) := by
  induction acts using List.reverseRecOn with
  | nil => exact .empty
  | append_singleton acts a ih =>
    rw [after, List.foldl_append, lives_concat]
    exact ih.act (oneEach_lives acts) a

/-! ## What a session tells -/

/-- What the lives of its guards say of a session, of the answers it gives and of what it does
next. -/
structure IsToldBy (s : GuardSession) (ls : List Life) : Prop where
  load : s.load = {
    level := working ls
    counters := { faulted := 0, processed := ended ls, timeouts := 0, current := working ls } }
  /-- Each flag of a guard is set by calls of its own. -/
  guards : ∀ name, s.guards.get? name = (bearer? name ls).map fun l =>
    ⟨l.calls.contains .finalize, l.calls.contains .markTimedOut⟩
  /-- A guard is finalized for the first time if it has never been told to be. -/
  finalize : ∀ name, (s.finalize name).2
    = (bearer? name ls).map fun l => !l.calls.contains .finalize
  drop : ∀ name, (s.drop name).2 = (bearer? name ls).isSome
  marked : ∀ name, (s.markTimedOut name).load = s.load
  /-- When every guard that is left has been dropped, nothing is at work. -/
  emptied : ∀ names : List String, (∀ name, (bearer? name ls).isSome → name ∈ names) →
    ((names.map Act.drop).foldl act s).load = {
      level := 0
      counters := { faulted := 0, processed := ls.length, timeouts := 0, current := 0 } }

theorem get?_drop (s : GuardSession) (name n : String) :
    (s.drop name).1.guards.get? n = if n = name then none else s.guards.get? n := by
  rw [GuardSession.drop]
  split
  · next hnone =>
    split
    · next hn => rw [hn, hnone]
    · rfl
  · exact Dictionary.get?_erase ..

theorem get?_drop_all (s : GuardSession) (names : List String) (n : String) :
    ((names.map Act.drop).foldl act s).guards.get? n
      = if n ∈ names then none else s.guards.get? n := by
  induction names generalizing s with
  | nil => rfl
  | cons name names ih =>
    rw [List.map_cons, List.foldl_cons, ih, act, get?_drop]
    by_cases hn : n = name <;> simp [hn]

/-- With no guard left every one that was made is over. -/
theorem loadOf_of_no_guard (h : ∀ name, bearer? name ls = none) :
    loadOf ls = ⟨0, ⟨0, ls.length, 0, 0⟩⟩ := by
  have hworking : working ls = 0 := by
    refine List.countP_eq_zero.mpr fun l hl hwork => ?_
    have hbears : ¬l.bears l.name = true := List.find?_eq_none.mp (h l.name) l hl
    simp only [Life.isAtWork, Bool.and_eq_true, Bool.not_eq_true', List.contains_eq_mem,
      decide_eq_false_iff_not] at hwork
    exact hbears (Life.bears_iff.mpr ⟨rfl, hwork.2⟩)
  have hended : ended ls = ls.length := by
    rw [← working_add_ended, hworking, Nat.zero_add]
  rw [loadOf, hworking, hended]
  rfl

theorem length_lives_drops (acts : List Act) (names : List String) :
    (lives (acts ++ names.map Act.drop)).length = (lives acts).length := by
  induction acts with
  | nil => induction names with
    | nil => rfl
    | cons name names ih => exact ih
  | cons a acts ih =>
    cases a with
    | start name => exact congrArg (· + 1) ih
    | finalize | markTimedOut | drop => exact ih

/-- Whatever is done with any number of guards, in any order and under any names, the load is that
of the guards that were made and neither finalized nor dropped, each of the others is counted as
processed once, and a guard says exactly on the first call that it has been finalized. -/
theorem isToldBy_lives (acts : List Act) : (after acts).IsToldBy (lives acts) := by
  have h := follows_lives acts
  refine ⟨h.load, h.guards, fun name => ?_, fun name => ?_, fun name => ?_, fun names hall => ?_⟩
  · rw [GuardSession.finalize, h.guards name]
    cases bearer? name (lives acts) with
    | none => rfl
    | some l =>
      have hfirst : (l.guard.finalize (after acts).load).2.2 = !l.calls.contains .finalize := by
        rw [CompletionGuard.finalize, Life.guard]
        cases l.calls.contains .finalize <;> rfl
      exact congrArg some hfirst
  · rw [GuardSession.drop, h.guards name]
    cases bearer? name (lives acts) <;> rfl
  · rw [GuardSession.markTimedOut]
    split <;> rfl
  · have hafter : (names.map Act.drop).foldl act (after acts)
        = after (acts ++ names.map Act.drop) := (List.foldl_append ..).symm
    have hlater := follows_lives (acts ++ names.map Act.drop)
    rw [hafter, hlater.load, loadOf_of_no_guard fun name => ?_, length_lives_drops]
    have hnone : (after (acts ++ names.map Act.drop)).guards.get? name = none := by
      rw [← hafter, get?_drop_all]
      split
      · rfl
      · next hname =>
        rw [h.guards name, Option.map_eq_none_iff, ← Option.not_isSome_iff_eq_none]
        exact fun hsome => hname (hall name hsome)
    rwa [hlater.guards name, Option.map_eq_none_iff] at hnone

end StreamDispatch.GuardSession
