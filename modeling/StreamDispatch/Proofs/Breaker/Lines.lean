import StreamDispatch.Proofs.Breaker.Journal
import StreamDispatch.Proofs.Breaker.Release

set_option autoImplicit false

/-! # What a check that stalls writes

A check that stalls enters the line of its trip once, when it starts, whatever has been written
before. It enters the line of its release once if it passes, and never if it is cancelled. Together
with what is due at each act (`IsTimely`) this tells all warnings, alarms and releases of a run. -/

namespace StreamDispatch.Breaker

namespace Session

variable {s s' : Session} {a : Act} {acts acts' : List Act} {log : List Entry} {id : Nat}

/-! ## What one check writes -/

/-- The entries of a check that are lines of a kind. -/
def entriesOf (id : Nat) (line : Notice → Bool) (log : List Entry) : List Entry :=
  log.filter fun e => e.check == id && line e.notice

section Entries

variable {line : Notice → Bool} {es : List Entry}

theorem entriesOf_append : entriesOf id line (log ++ es)
    = entriesOf id line log ++ entriesOf id line es :=
  List.filter_append ..

theorem entriesOf_eq_nil (h : ∀ e ∈ es, e.check = id → line e.notice = false) :
    entriesOf id line es = [] := by
  rw [entriesOf, List.filter_eq_nil_iff]
  intro e he
  by_cases hid : e.check = id
  · simp [h e he hid]
  · simp [hid]

end Entries

/-- How often a check that stalled has written the line of its release: once if it has passed, and
never if it has been cancelled or still waits. -/
def releases (s : Session) (id : Nat) : Nat :=
  if (s.verdict? id).any (·.verdict == .passed) then 1 else 0

/-- What a check that stalled has written so far: the line of its trip, when it started, and as many
lines of its release as there should be. -/
structure Accounts (s : Session) (log : List Entry) (id time : Nat) (level : Int) : Prop where
  tripped : entriesOf id Notice.isTripped log = [⟨time, id, .tripped level⟩]
  restored : (entriesOf id Notice.isRestored log).length = s.releases id

/-- The accounts of a check in a session that may go on. -/
structure Accounted (s : Session) (log : List Entry) (id time : Nat) (level : Int) : Prop where
  started : id < s.started
  pending : ∀ w, s.waiting? id = some w → s.verdict? id = none
  accounts : s.Accounts log id time level

section Accounted

variable {time : Nat} {level : Int} {es : List Entry}

theorem releases_of_verdict? {id : Nat} (h : s'.verdict? id = s.verdict? id) :
    s'.releases id = s.releases id := by
  rw [releases, releases, h]

theorem releases_of_none (h : s.verdict? id = none) : s.releases id = 0 := by
  rw [releases, h]
  rfl

/-- Entries that are neither trips nor releases of the check leave its accounts as they are. -/
theorem Accounts.append (hs : s.Accounts log id time level)
    (hreleases : s'.releases id = s.releases id)
    (hes : ∀ e ∈ es, e.check = id → e.notice.isTripped = false ∧ e.notice.isRestored = false) :
    s'.Accounts (log ++ es) id time level where
  tripped := by
    rw [entriesOf_append, hs.tripped, entriesOf_eq_nil fun e he hid => (hes e he hid).1,
      List.append_nil]
  restored := by
    rw [entriesOf_append, entriesOf_eq_nil fun e he hid => (hes e he hid).2, List.append_nil,
      hs.restored, hreleases]

/-- An act that gives a check no signal is entered by another check. -/
theorem check_ne_of_no_signal (hid : id < s.started) (ha : a.signal? id = none) :
    ∀ e ∈ s.written a, e.check ≠ id := by
  intro e he
  cases a with
  | increment | decrement | tick => cases he
  | start cancelled =>
    obtain ⟨n, -, rfl⟩ := List.mem_map.mp he
    exact Ne.symm (Nat.ne_of_lt hid)
  | cancel other =>
    obtain ⟨w, -, rfl⟩ := List.mem_map.mp he
    rintro rfl
    simp [Act.signal?] at ha
  | look other =>
    obtain ⟨n, -, rfl⟩ := List.mem_map.mp he
    rintro rfl
    simp [Act.signal?] at ha

/-- A cancellation writes neither a trip nor a release, and makes no check pass. -/
theorem Accounted.cancel (hs : s.Accounted log id time level) :
    (s.cancel id).Accounted (log ++ s.written (.cancel id)) id time level := by
  have hwaiting : (s.cancel id).waiting? id = none := by
    rw [cancel_eq]
    exact find?_filter_self Waiting.id _ _
  have hreleases : (s.cancel id).releases id = s.releases id := by
    cases he : s.verdict? id with
    | some e => exact releases_of_verdict? ((verdict?_act (a := .cancel id) rfl he).trans he.symm)
    | none =>
      rw [releases_of_none he, releases, cancel_eq, verdict?, List.find?_append]
      rw [verdict?] at he
      rw [he, Option.none_or, if_neg]
      rw [Option.any_eq_true]
      rintro ⟨e, he, hverdict⟩
      obtain ⟨w, -, rfl⟩ := List.mem_map.mp (List.mem_of_find?_eq_some he)
      cases hverdict
  refine ⟨?_, ?_, hs.accounts.append hreleases fun e he _ => ?_⟩
  · rw [cancel_eq]
    exact hs.started
  · rw [hwaiting]
    intro w hw
    cases hw
  · obtain ⟨w, -, rfl⟩ := List.mem_map.mp he
    exact ⟨rfl, rfl⟩

/-- A look writes a release exactly if it makes the check pass. -/
theorem Accounted.look (hs : s.Accounted log id time level) {w : Waiting}
    (hw : s.waiting? id = some w) :
    (s.lookOf id).Accounted (log ++ s.written (.look id)) id time level := by
  have hpending := hs.pending w hw
  have hzero := hs.accounts.restored
  rw [releases_of_none hpending, List.length_eq_zero_iff] at hzero
  have hverdict {ended : List Ended} (h : (s.lookOf id).ended = s.ended ++ ended) :
      (s.lookOf id).verdict? id = ended.find? (·.id == id) := by
    rw [verdict?] at hpending
    rw [verdict?, h, List.find?_append, hpending, Option.none_or]
  have hstarted : id < (s.lookOf id).started := by
    rw [lookOf, started_settle]
    exact hs.started
  rcases Int.lt_or_le s.breaker.level s.breaker.config.warningLevel with hlt | hge
  · have hended : (s.lookOf id).ended = s.ended ++ [⟨id, .passed, s.now⟩] := by
      rw [lookOf, ended_settle, look_of_lt hlt]
    have hpassed : (s.lookOf id).verdict? id = some ⟨id, .passed, s.now⟩ := by
      rw [hverdict hended]
      simp
    have hwaiting : (s.lookOf id).waiting? id = none := by
      rw [waiting?, waiting_lookOf, look_of_lt hlt, List.append_nil]
      exact find?_filter_self Waiting.id _ _
    rw [written_look_of_lt hlt]
    refine ⟨hstarted, ?_, ?_, ?_⟩
    · rw [hwaiting]
      intro w hw
      cases hw
    · rw [entriesOf_append, hs.accounts.tripped]
      simp [entriesOf, Notice.isTripped]
    · rw [entriesOf_append, hzero, releases, hpassed]
      simp [entriesOf, Notice.isRestored]
  · have hended : (s.lookOf id).ended = s.ended ++ [] := by
      rw [lookOf, ended_settle, look_of_ge hge]
      rfl
    have hopen : (s.lookOf id).verdict? id = none := hverdict hended
    refine ⟨hstarted, fun _ _ => hopen, hs.accounts.append ?_ fun e he _ => ?_⟩
    · rw [releases_of_none hopen, releases_of_none hpending]
    · rw [written_look_of_ge hge] at he
      split at he <;> simp only [List.mem_cons, List.not_mem_nil, or_false] at he
      · rcases he with rfl | rfl <;> exact ⟨rfl, rfl⟩
      · subst he
        exact ⟨rfl, rfl⟩

theorem Accounted.act (hs : s.Accounted log id time level) (h : s.act a = some s')
    (hnumbered : s.Numbered) : s'.Accounted (log ++ s.written a) id time level := by
  have hstarted := Nat.lt_of_lt_of_le hs.started (hnumbered.act h).2
  cases hsignal : a.signal? id with
  | none =>
    obtain ⟨hwaiting, hverdict⟩ := act_eq_of_no_signal hs.started h hsignal
    refine ⟨hstarted, ?_, hs.accounts.append (releases_of_verdict? hverdict) fun e he hid => ?_⟩
    · rw [hwaiting, hverdict]
      exact hs.pending
    · exact absurd hid (check_ne_of_no_signal hs.started hsignal e he)
  | some x =>
    cases a with
    | increment | decrement =>
      cases h
      exact ⟨hstarted, hs.pending, hs.accounts.append rfl nofun⟩
    | tick =>
      obtain ⟨-, rfl⟩ := act_tick_eq_some.mp h
      exact ⟨hstarted, hs.pending, hs.accounts.append rfl nofun⟩
    | start cancelled => cases hsignal
    | cancel other =>
      rw [Act.signal?, Option.ite_none_right_eq_some] at hsignal
      obtain rfl := hsignal.1
      cases h
      exact hs.cancel
    | look other =>
      rw [Act.signal?, Option.ite_none_right_eq_some] at hsignal
      obtain rfl := hsignal.1
      obtain ⟨w, hw, -, rfl⟩ := act_look_eq_some.mp h
      exact hs.look hw

theorem Accounted.play (hs : s.Accounted log id time level) (h : s.play acts = some s')
    (hnumbered : s.Numbered) : s'.Accounted (log ++ s.journal acts) id time level := by
  induction acts generalizing s log with
  | nil =>
    cases h
    rw [journal, List.append_nil]
    exact hs
  | cons a acts ih =>
    obtain ⟨s₁, ha, hacts⟩ := play_cons_eq_some.mp h
    rw [journal_cons ha, ← List.append_assoc]
    exact ih (hs.act ha hnumbered) hacts (hnumbered.act ha).1

end Accounted

/-! ## The rule -/

end Session

end StreamDispatch.Breaker
