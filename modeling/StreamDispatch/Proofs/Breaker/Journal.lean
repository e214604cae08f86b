import StreamDispatch.Proofs.Breaker.Session

set_option autoImplicit false

/-! # What a breaker writes, and how often

The journal of a session enters every notice with its time and the check that wrote it. A line that
is held back for the cooldown is written exactly when the journal has no such line that is recent:
one that was written less than the cooldown ago, with no clearing line behind it. The two deadlines
of a breaker are shared by all of its checks, and `Guards` says what a deadline knows of the
journal, at any later time; each act keeps that (`Kept.act`). -/

namespace StreamDispatch.Breaker

/-! ## Kinds of lines -/

namespace Notice

def isWarning : Notice → Bool
  | .warningReached _ => true
  | _ => false

def isTripped : Notice → Bool
  | .tripped _ => true
  | _ => false

/-- The lines on a breaker that is tripped: the first one of a check, and its reminders. -/
def isAlarm : Notice → Bool
  | .tripped _ => true
  | .stillTripped _ => true
  | _ => false

def isRestored : Notice → Bool
  | .restored _ => true
  | _ => false

/-- After these lines a warning is written at once. -/
def clearsWarning : Notice → Bool
  | .closed _ => true
  | .restored _ => true
  | _ => false

end Notice

/-! ## Recent lines -/

/-- A notice with its time and the number of the check that wrote it. -/
structure Entry where
  time : Nat
  check : Nat
  notice : Notice
  deriving DecidableEq, Repr

/-- A line of a kind was written less than a cooldown ago, and no clearing line since. The clock
ticks once a millisecond. -/
def Recent (line clears : Notice → Bool) (cooldown : Duration) (now : Nat) (log : List Entry) :
    Prop :=
  ∃ before e after, log = before ++ e :: after ∧ line e.notice = true
    ∧ (∀ x ∈ after, clears x.notice = false)
    ∧ (now - e.time) * 1000000 < cooldown.nanoseconds

section Recent

variable {line clears : Notice → Bool} {cooldown : Duration} {now time : Nat} {log es : List Entry}
  {deadline : Option Nat} {x : Entry}

theorem not_recent_nil : ¬ Recent line clears cooldown now [] := by
  rintro ⟨before, e, after, h, -⟩
  cases before <;> cases h

theorem recent_append_singleton : Recent line clears cooldown now (log ++ [x]) ↔
    line x.notice = true ∧ (now - x.time) * 1000000 < cooldown.nanoseconds
      ∨ clears x.notice = false ∧ Recent line clears cooldown now log := by
  constructor
  · rintro ⟨before, e, after, heq, hline, hafter, hrecent⟩
    rcases List.eq_nil_or_concat after with rfl | ⟨after, y, rfl⟩
    · obtain ⟨rfl, hx⟩ := List.append_inj' heq rfl
      obtain rfl := List.singleton_inj.mp hx
      exact .inl ⟨hline, hrecent⟩
    · rw [List.concat_eq_append] at heq hafter
      rw [← List.cons_append, ← List.append_assoc] at heq
      obtain ⟨rfl, hx⟩ := List.append_inj' heq rfl
      obtain rfl := List.singleton_inj.mp hx
      rw [List.forall_mem_append] at hafter
      exact .inr ⟨hafter.2 x (List.mem_singleton_self x), before, e, after, rfl, hline, hafter.1,
        hrecent⟩
  · rintro (⟨hline, hrecent⟩ | ⟨hx, before, e, after, rfl, hline, hafter, hrecent⟩)
    · exact ⟨log, x, [], rfl, hline, nofun, hrecent⟩
    · refine ⟨before, e, after ++ [x], by simp, hline, ?_, hrecent⟩
      rw [List.forall_mem_append]
      exact ⟨hafter, fun y hy => List.mem_singleton.mp hy ▸ hx⟩

/-- Lines of other kinds change nothing. -/
theorem recent_append_of_other
    (h : ∀ x ∈ es, line x.notice = false ∧ clears x.notice = false) :
    Recent line clears cooldown now (log ++ es) ↔ Recent line clears cooldown now log := by
  induction es generalizing log with
  | nil => rw [List.append_nil]
  | cons x es ih =>
    rw [List.forall_mem_cons] at h
    rw [List.append_cons, ih h.2, recent_append_singleton]
    simp [h.1.1, h.1.2]

/-- A deadline knows, at any time from the last entry on, whether a line is recent. -/
def Guards (line clears : Notice → Bool) (cooldown : Duration) (deadline : Option Nat)
    (log : List Entry) : Prop :=
  ∀ now, (∀ e ∈ log, e.time ≤ now) →
    (isDue deadline now = true ↔ ¬ Recent line clears cooldown now log)

theorem Guards.nil : Guards line clears cooldown none [] :=
  fun _ _ => iff_of_true rfl not_recent_nil

theorem Guards.append_of_other (h : Guards line clears cooldown deadline log)
    (hes : ∀ x ∈ es, line x.notice = false ∧ clears x.notice = false) :
    Guards line clears cooldown deadline (log ++ es) := by
  intro now hpast
  rw [recent_append_of_other hes]
  exact h now (List.forall_mem_append.mp hpast).1

/-- A clearing line lifts the deadline. -/
theorem Guards.append_clearing (hline : line x.notice = false) (hclears : clears x.notice = true) :
    Guards line clears cooldown none (log ++ [x]) := by
  intro now _
  rw [recent_append_singleton]
  simp [isDue, hline, hclears]

/-- A line sets the deadline, whatever was written before. -/
theorem Guards.append_line (hpast : ∀ e ∈ log, e.time ≤ x.time) (hline : line x.notice = true) :
    Guards line clears cooldown (some (x.time + cooldown.ticks)) (log ++ [x]) := by
  intro now hnow
  have hx : x.time ≤ now := hnow x (List.mem_append_right _ (List.mem_singleton_self x))
  have hdue : isDue (some (x.time + cooldown.ticks)) now = true
      ↔ ¬ (now - x.time) * 1000000 < cooldown.nanoseconds := by
    rw [isDue, Option.all_some, decide_eq_true_eq, Nat.not_lt, ← Duration.ticks_le_iff]
    omega
  rw [hdue, recent_append_singleton]
  refine not_congr ⟨fun h => .inl ⟨hline, h⟩, ?_⟩
  rintro (⟨-, h⟩ | ⟨-, before, e, after, rfl, -, -, h⟩)
  · exact h
  · -- An older line that is recent leaves this one recent, too.
    have he : e.time ≤ x.time := hpast e (by simp)
    have hago : now - x.time ≤ now - e.time := Nat.sub_le_sub_left he now
    exact Nat.lt_of_le_of_lt (Nat.mul_le_mul_right _ hago) h

end Recent

/-! ## Deadlines -/

/-- Both deadlines of a breaker know the journal. -/
structure KnowsLog (b : Breaker) (log : List Entry) : Prop where
  warnings : Guards Notice.isWarning Notice.clearsWarning b.config.logCooldown b.nextWarning log
  alarms : Guards Notice.isAlarm Notice.isRestored b.config.logCooldown b.nextReminder log

section KnowsLog

variable {b : Breaker} {log es : List Entry} {now id : Nat} {cancelled : Bool} {level : Int}

theorem mem_stall {n : Notice} (h : n ∈ (b.stall now cancelled level).2) :
    n = .stalling level ∨ n = .stallCancelled level := by
  unfold stall at h
  split at h
  · simpa using h
  · exact .inl (List.mem_singleton.mp h)

/-- Entries of stalls, and of nothing else. -/
def OnlyStalls (es : List Entry) : Prop :=
  ∀ e ∈ es, ∃ level, e.notice = .stalling level ∨ e.notice = .stallCancelled level

theorem onlyStalls_stall : OnlyStalls ((b.stall now cancelled level).2.map (⟨now, id, ·⟩)) := by
  intro e he
  obtain ⟨n, hn, rfl⟩ := List.mem_map.mp he
  exact ⟨level, mem_stall hn⟩

theorem KnowsLog.append_stalls (h : KnowsLog b log) (hes : OnlyStalls es) :
    KnowsLog b (log ++ es) := by
  refine ⟨h.warnings.append_of_other fun e he => ?_, h.alarms.append_of_other fun e he => ?_⟩
  all_goals
    obtain ⟨level, hn | hn⟩ := hes e he <;> rw [hn] <;> exact ⟨rfl, rfl⟩

theorem KnowsLog.check (h : KnowsLog b log) (hpast : ∀ e ∈ log, e.time ≤ now) :
    KnowsLog (b.check now cancelled).1
      (log ++ (b.check now cancelled).2.2.map (⟨now, id, ·⟩)) := by
  unfold Breaker.check
  cases b.state with
  | closed => exact ⟨.append_clearing rfl rfl, h.alarms.append_of_other (by simp; exact ⟨rfl, rfl⟩)⟩
  | warning =>
    simp only
    split
    · exact ⟨.append_line hpast rfl, h.alarms.append_of_other (by simp; exact ⟨rfl, rfl⟩)⟩
    · simpa using h
  | tripped =>
    have htripped : KnowsLog { b with nextReminder := some (b.cooledDown now) }
        (log ++ [⟨now, id, .tripped b.level⟩]) :=
      ⟨h.warnings.append_of_other (by simp; exact ⟨rfl, rfl⟩), .append_line hpast rfl⟩
    simpa using htripped.append_stalls onlyStalls_stall

theorem KnowsLog.look (h : KnowsLog b log) (hpast : ∀ e ∈ log, e.time ≤ now) :
    KnowsLog (b.look now cancelled).1
      (log ++ (b.look now cancelled).2.2.map (⟨now, id, ·⟩)) := by
  unfold Breaker.look
  split
  · exact ⟨.append_clearing rfl rfl, .append_clearing rfl rfl⟩
  · simp only
    split
    · have hreminded : KnowsLog { b with nextReminder := some (b.cooledDown now) }
          (log ++ [⟨now, id, .stillTripped b.level⟩]) :=
        ⟨h.warnings.append_of_other (by simp; exact ⟨rfl, rfl⟩), .append_line hpast rfl⟩
      simpa using hreminded.append_stalls onlyStalls_stall
    · exact h.append_stalls onlyStalls_stall

end KnowsLog

namespace Session

/-! ## The journal -/

/-- What an act enters in the journal. -/
def written (s : Session) : Act → List Entry
  | .start cancelled => (s.breaker.check s.now cancelled).2.2.map (⟨s.now, s.started, ·⟩)
  | .look id => (s.breaker.look s.now false).2.2.map (⟨s.now, id, ·⟩)
  | .cancel id => (s.waiting.filter (·.id == id)).map fun w => ⟨s.now, id, .stallCancelled w.found⟩
  | .increment | .decrement | .tick => []

/-- What some acts enter in the journal. -/
def journal (s : Session) : List Act → List Entry
  | [] => []
  | a :: acts => s.written a ++ ((s.act a).map (·.journal acts)).getD []

variable {s s' : Session} {a : Act} {acts acts' : List Act} {log : List Entry} {id : Nat}

theorem journal_cons (h : s.act a = some s') :
    s.journal (a :: acts) = s.written a ++ s'.journal acts := by
  rw [journal, h]
  rfl

/-- An entry is made now, by a check that has been started by the end of the act. -/
theorem entry_of_mem_written (hs : s.Numbered) (h : s.act a = some s') {e : Entry}
    (he : e ∈ s.written a) : e.time = s.now ∧ e.check < s'.started := by
  cases a with
  | increment | decrement | tick => cases he
  | start cancelled =>
    cases h
    obtain ⟨n, -, rfl⟩ := List.mem_map.mp he
    rw [start, started_settle]
    exact ⟨rfl, Nat.lt_succ_self _⟩
  | cancel other =>
    cases h
    obtain ⟨w, hw, rfl⟩ := List.mem_map.mp he
    obtain ⟨hmem, hid⟩ := List.mem_filter.mp hw
    obtain rfl : w.id = other := by simpa using hid
    rw [cancel_eq]
    exact ⟨rfl, hs.waiting w hmem⟩
  | look other =>
    obtain ⟨w, hw, -, rfl⟩ := act_look_eq_some.mp h
    obtain ⟨n, -, rfl⟩ := List.mem_map.mp he
    have hid : other < s.started := id_lt_of_waiting? hs hw
    rw [lookOf, started_settle]
    exact ⟨rfl, hid⟩

/-- The journal so far, and what the breaker knows of it. -/
structure Kept (s : Session) (log : List Entry) : Prop where
  numbered : s.Numbered
  past : ∀ e ∈ log, e.time ≤ s.now
  known : ∀ e ∈ log, e.check < s.started
  deadlines : KnowsLog s.breaker log

theorem Kept.new (role partition : String) (config : Config) :
    Kept (.new role partition config) [] where
  numbered := .new role partition config
  past _ := nofun
  known _ := nofun
  deadlines := ⟨.nil, .nil⟩

theorem KnowsLog.act (h : s.act a = some s') (hknows : KnowsLog s.breaker log)
    (hpast : ∀ e ∈ log, e.time ≤ s.now) : KnowsLog s'.breaker (log ++ s.written a) := by
  cases a with
  | increment | decrement =>
    cases h
    rw [written, List.append_nil]
    exact ⟨hknows.warnings, hknows.alarms⟩
  | start cancelled =>
    cases h
    rw [start, breaker_settle]
    exact hknows.check hpast
  | cancel other =>
    cases h
    rw [cancel_eq]
    refine hknows.append_stalls fun e he => ?_
    obtain ⟨w, -, rfl⟩ := List.mem_map.mp he
    exact ⟨w.found, .inr rfl⟩
  | look other =>
    obtain ⟨w, -, -, rfl⟩ := act_look_eq_some.mp h
    rw [lookOf, breaker_settle]
    exact hknows.look hpast
  | tick =>
    obtain ⟨-, rfl⟩ := act_tick_eq_some.mp h
    rw [written, List.append_nil]
    exact hknows

theorem Kept.act (hs : s.Kept log) (h : s.act a = some s') : s'.Kept (log ++ s.written a) := by
  obtain ⟨hnumbered, hstarted⟩ := hs.numbered.act h
  have hnow : s.now ≤ s'.now := by
    rw [(level_act h 0).2]
    exact Nat.le_add_right ..
  refine ⟨hnumbered, fun e he => ?_, fun e he => ?_, KnowsLog.act h hs.deadlines hs.past⟩
  · rcases List.mem_append.mp he with he | he
    · exact Nat.le_trans (hs.past e he) hnow
    · rw [(entry_of_mem_written hs.numbered h he).1]
      exact hnow
  · rcases List.mem_append.mp he with he | he
    · exact Nat.lt_of_lt_of_le (hs.known e he) hstarted
    · exact (entry_of_mem_written hs.numbered h he).2

theorem Kept.play (hs : s.Kept log) (h : s.play acts = some s') :
    s'.Kept (log ++ s.journal acts) := by
  induction acts generalizing s log with
  | nil =>
    cases h
    rw [journal, List.append_nil]
    exact hs
  | cons a acts ih =>
    obtain ⟨s₁, ha, hacts⟩ := play_cons_eq_some.mp h
    rw [journal_cons ha, ← List.append_assoc]
    exact ih (hs.act ha) hacts

/-! ## What is written at a check and at a look -/

theorem written_look_of_lt (h : s.breaker.level < s.breaker.config.warningLevel) (id : Nat) :
    s.written (.look id) = [⟨s.now, id, .restored s.breaker.level⟩] := by
  rw [written, look, if_pos h]
  rfl

theorem written_look_of_ge (h : s.breaker.config.warningLevel ≤ s.breaker.level) (id : Nat) :
    s.written (.look id) = if isDue s.breaker.nextReminder s.now = true
      then [⟨s.now, id, .stillTripped s.breaker.level⟩, ⟨s.now, id, .stalling s.breaker.level⟩]
      else [⟨s.now, id, .stalling s.breaker.level⟩] := by
  rw [written, look, if_neg (Int.not_lt.mpr h)]
  simp only
  split <;> rfl

end Session

end StreamDispatch.Breaker
