import StreamDispatch.Proofs.Breaker.Session

set_option autoImplicit false

/-! # When a check is released

A check that finds the level below the trip level passes at once. Any other check looks at the level
at every multiple of the stall interval after its start, and nowhere else; it passes at the first
look that finds the level below the warning level, unless it is cancelled before. What becomes of a
check follows from its own signals, so no other check has a part in it. -/

namespace StreamDispatch.Breaker

namespace Session

open Signal (rise ticks looks)

/-- So far nothing has decided on a check that stalls: it has not been cancelled, and no look of it
has found the level below the warning level. -/
def Undecided (c : Config) : Int → List Signal → Prop
  | _, [] => True
  | level, x :: v =>
    x ≠ .cancel ∧ (x = .look → c.warningLevel ≤ level) ∧ Undecided c (level + x.lift) v

instance Undecided.decidable (c : Config) : ∀ level v, Decidable (Undecided c level v)
  | _, [] => .isTrue trivial
  | level, x :: v =>
    have := Undecided.decidable c (level + x.lift) v
    inferInstanceAs (Decidable (_ ∧ _ ∧ _))

section Stalls

/-! ## A check that stalls -/

/-- A check that started at some time still stalls; it has looked at the level so many times. -/
structure Stalls (s : Session) (id time interval looks : Nat) : Prop where
  pending : s.verdict? id = none
  waits : ∃ w, s.waiting? id = some w ∧ w.wake = time + (looks + 1) * interval
  looked : time + looks * interval ≤ s.now
  due : s.now ≤ time + (looks + 1) * interval

variable {s s' : Session} {a : Act} {acts : List Act} {id time interval n : Nat}

/-- A check looks at the level when its tick has come, and at no other tick. -/
theorem Stalls.look (hs : s.Stalls id time interval n) (h : s.act (.look id) = some s') :
    s.now = time + (n + 1) * interval ∧ s' = s.lookOf id := by
  obtain ⟨w, hw, hwake, heq⟩ := act_look_eq_some.mp h
  obtain ⟨w', hw', hdue⟩ := hs.waits
  obtain rfl := Option.some.inj (hw.symm.trans hw')
  have hle := hs.due
  exact ⟨by omega, heq⟩

/-- A look that finds the level too high lets the check stall further. -/
theorem Stalls.held (hs : s.Stalls id time interval n)
    (hinterval : s.breaker.config.stallInterval = .ofMillis interval) (hpos : 1 ≤ interval)
    (hlevel : s.breaker.config.warningLevel ≤ s.breaker.level) (h : s.act (.look id) = some s') :
    s'.Stalls id time interval (n + 1) := by
  obtain ⟨hnow, rfl⟩ := hs.look h
  have hcheck : (s.breaker.look s.now false).2.1
      = .stalled s.breaker.level (s.now + interval) := by
    rw [look_of_ge hlevel]
    simp [stall, nextLook_eq hinterval hpos]
  have hwaiting : (s.lookOf id).waiting? id
      = some ⟨id, s.breaker.level, s.now + interval⟩ := by
    rw [waiting?, waiting_lookOf, hcheck, List.find?_append, find?_filter_self Waiting.id]
    simp
  have hended : (s.lookOf id).verdict? id = none := by
    rw [lookOf, verdict?, ended_settle, hcheck, List.append_nil]
    exact hs.pending
  have hmul : (n + 1 + 1) * interval = (n + 1) * interval + interval := Nat.succ_mul ..
  refine ⟨hended, ⟨_, hwaiting, ?_⟩, ?_, ?_⟩
  · show s.now + interval = _
    omega
  · rw [lookOf, now_settle]
    exact Nat.le_of_eq hnow.symm
  · rw [lookOf, now_settle]
    show s.now ≤ _
    omega

/-- A check that is cancelled ends at once, even if it could have been released. -/
theorem Stalls.cancelled (hs : s.Stalls id time interval n) (h : s.act (.cancel id) = some s') :
    s'.verdict? id = some ⟨id, .cancelled, s.now⟩ := by
  cases h
  obtain ⟨w, hw, -⟩ := hs.waits
  have hpending := hs.pending
  rw [verdict?] at hpending
  rw [waiting?, ← List.head?_filter] at hw
  obtain ⟨rest, hrest⟩ := List.head?_eq_some_iff.mp hw
  have hid : w.id = id := by
    have hmem : w ∈ s.waiting.filter (·.id == id) := hrest ▸ List.mem_cons_self
    simpa using (List.mem_filter.mp hmem).2
  rw [cancel_eq, verdict?, List.find?_append, hpending, hrest]
  simp [hid]

/-- A signal that decides nothing lets the check stall further. -/
theorem Stalls.signalled (hs : s.Stalls id time interval n)
    (hinterval : s.breaker.config.stallInterval = .ofMillis interval) (hpos : 1 ≤ interval)
    {x : Signal} (ha : a.signal? id = some x) (hx : x ≠ .cancel)
    (hlook : x = .look → s.breaker.config.warningLevel ≤ s.breaker.level)
    (h : s.act a = some s') :
    s'.Stalls id time interval (n + if x = .look then 1 else 0) := by
  cases a with
  | increment | decrement =>
    cases ha
    cases h
    exact ⟨hs.pending, hs.waits, hs.looked, hs.due⟩
  | start cancelled => cases ha
  | cancel other =>
    simp only [Act.signal?, Option.ite_none_right_eq_some, Option.some.injEq] at ha
    exact absurd ha.2.symm hx
  | look other =>
    simp only [Act.signal?, Option.ite_none_right_eq_some, Option.some.injEq] at ha
    obtain ⟨rfl, rfl⟩ := ha
    rw [if_pos rfl]
    exact hs.held hinterval hpos (hlook rfl) h
  | tick =>
    cases ha
    obtain ⟨hwake, rfl⟩ := act_tick_eq_some.mp h
    -- The clock waits for the check, so it is not due yet.
    obtain ⟨w, hw, hdue⟩ := hs.waits
    have hlt := hwake w (List.mem_of_find?_eq_some hw)
    exact ⟨hs.pending, hs.waits, Nat.le_succ_of_le hs.looked, hdue ▸ hlt⟩

/-- As long as nothing decides on a check it stalls, and looks at the level at its own ticks. -/
theorem Stalls.play (hs : s.Stalls id time interval n) (hid : id < s.started)
    (hnumbered : s.Numbered)
    (hinterval : s.breaker.config.stallInterval = .ofMillis interval) (hpos : 1 ≤ interval)
    (hu : Undecided s.breaker.config s.breaker.level (Act.signals id acts))
    (h : s.play acts = some s') :
    s'.Stalls id time interval (n + looks (Act.signals id acts)) := by
  induction acts generalizing s n with
  | nil =>
    cases h
    exact hs
  | cons a acts ih =>
    obtain ⟨s₁, ha, hacts⟩ := play_cons_eq_some.mp h
    obtain ⟨hnumbered₁, hstarted⟩ := hnumbered.act ha
    have hconfig := config_act ha
    have hlevel := (level_act ha id).1
    have hid₁ := Nat.lt_of_lt_of_le hid hstarted
    rw [signals_cons] at hu ⊢
    cases hsignal : a.signal? id with
    | none =>
      rw [hsignal] at hu hlevel
      obtain ⟨hwaiting, hverdict⟩ := act_eq_of_no_signal hid ha hsignal
      have hnow : s₁.now = s.now := by
        have htime := (level_act ha id).2
        rwa [hsignal] at htime
      have hs₁ : s₁.Stalls id time interval n := by
        refine ⟨hverdict.trans hs.pending, ?_, ?_, ?_⟩
        · rw [hwaiting]
          exact hs.waits
        · rw [hnow]
          exact hs.looked
        · rw [hnow]
          exact hs.due
      refine ih hs₁ hid₁ hnumbered₁ (hconfig ▸ hinterval) ?_ hacts
      rw [hconfig, hlevel]
      simpa using hu
    | some x =>
      rw [hsignal] at hu hlevel
      obtain ⟨hcancel, hlook, hrest⟩ := hu
      have hs₁ := hs.signalled hinterval hpos hsignal hcancel hlook ha
      have hnext := ih hs₁ hid₁ hnumbered₁ (hconfig ▸ hinterval)
        (by rw [hconfig, hlevel]; simpa using hrest) hacts
      have hlooks : n + looks (x :: Act.signals id acts)
          = n + (if x = .look then 1 else 0) + looks (Act.signals id acts) := by
        rw [looks_cons]
        omega
      show s'.Stalls id time interval (n + looks (x :: Act.signals id acts))
      rwa [hlooks]

/-! ## The beginning of a check -/

end Stalls

/-! ## What becomes of a check -/

/-- A check of a breaker with what has happened before it starts and what happens afterwards. -/
structure Attempt where
  role : String
  partition : String
  config : Config
  earlier : List Act
  before : Session
  /-- Whether the check is cancelled when it starts. -/
  cancelled : Bool
  later : List Act
  after : Session
  reached : (new role partition config).play earlier = some before
  run : (before.start cancelled).play later = some after

namespace Attempt

variable (a : Attempt)

def id : Nat := a.before.started

/-- When the check starts. -/
def time : Nat := a.before.now

/-- The level that the check finds when it starts. -/
def level : Int := a.before.breaker.level

/-- What the check notices after it has started. -/
def signals : List Signal := Act.signals a.id a.later

theorem numbered : a.before.Numbered := (Numbered.new a.role a.partition a.config).play a.reached

variable {a} {p q : List Signal} {x : Signal} {n : Nat}

/-- The acts by which two handlers enter a breaker. -/
def trialEarlier : List Act := [.increment, .increment]

/-- The level is too high at the first look, and low enough only after the second handler has left;
a look of another check is no matter of this one. -/
def trialLater : List Act :=
  List.replicate 5 .tick ++ [.decrement, .start false] ++ List.replicate 5 .tick ++ [.look 0]
    ++ [.decrement] ++ List.replicate 10 .tick ++ [.look 0]

def trialConfig : Config := ⟨1, 2, .ofMillis 10, .ofMillis 0⟩

/-- A check that is held back, and released at its second look. -/
def trial : Attempt where
  role := "processor"
  partition := "0"
  config := trialConfig
  earlier := trialEarlier
  before := ((new "processor" "0" trialConfig).play trialEarlier).get (by decide +kernel)
  cancelled := false
  later := trialLater
  after := ((((new "processor" "0" trialConfig).play trialEarlier).get
    (by decide +kernel)).start false |>.play trialLater).get (by decide +kernel)
  reached := (Option.some_get _).symm
  run := (Option.some_get _).symm

end Attempt

end Session

end StreamDispatch.Breaker
