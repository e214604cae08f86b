import Mathlib.Order.Bounds.Defs
import StreamDispatch.Proofs.Dispatch.Course
import StreamDispatch.Proofs.Dispatch.Pace

set_option autoImplicit false

/-! # Slots

When the workers of a batch start can be read from the journal, and when they end follows from how
long each takes. Between the two a worker takes up one of the slots of its batch. At an instant that
is past it is settled for good how many slots are taken; now, slots can only become free. -/

namespace StreamDispatch

open Occurrence (deeds)

/-! ## The journal is written as things happen -/

/-- Whether an event is given to a worker. -/
def Occurrence.isHandedOut : Occurrence → Bool
  | .handedOut _ => true
  | _ => false

namespace Host

variable {h h' : Host} {timely : Bool} {place : Place} {os : List Occurrence}
  {p : Occurrence → Bool}

/-- The ticks at which something of a kind has happened at a place, in order. -/
def times (h : Host) (place : Place) (p : Occurrence → Bool) : List Nat :=
  (h.journal.filter fun e => p e.occurrence && e.place = place).map (·.time)

/-- Only what happens now is entered in the journal. -/
def Journals (h h' : Host) : Prop :=
  ∃ entries, h'.journal = h.journal ++ entries ∧ ∀ e ∈ entries, e.time = h.now

theorem journals_of_eq (hj : h'.journal = h.journal) : Journals h h' :=
  ⟨[], by rw [hj, List.append_nil], nofun⟩

theorem journals_record (h : Host) (lease : Nat) (place : Place) (os : List Occurrence) :
    Journals h (h.record lease place os) := by
  refine ⟨h.entries place os, rfl, ?_⟩
  intro e he
  obtain ⟨o, -, rfl⟩ := List.mem_map.mp he
  rfl

theorem journals_log (h : Host) (lines : List Log.Line) : Journals h (h.log lines) := by
  refine ⟨_, rfl, ?_⟩
  intro e he
  obtain ⟨line, -, rfl⟩ := List.mem_map.mp he
  rfl

theorem Journals.trans {h'' : Host} (hj : Journals h h') (hj' : Journals h' h'')
    (hnow : h'.now = h.now) : Journals h h'' := by
  obtain ⟨entries, hentries, htime⟩ := hj
  obtain ⟨entries', hentries', htime'⟩ := hj'
  refine ⟨entries ++ entries', by rw [hentries', hentries, List.append_assoc], ?_⟩
  intro e he
  rcases List.mem_append.mp he with he | he
  · exact htime e he
  · exact (htime' e he).trans hnow

theorem journals_closePartition (h : Host) (partition : String) (reason : CloseReason) :
    Journals h (h.closePartition partition reason).1
      ∧ (h.closePartition partition reason).1.now = h.now := by
  unfold closePartition
  split
  · exact ⟨journals_log h _, rfl⟩
  · exact ⟨journals_log h _, rfl⟩

theorem journals_shutdown (h : Host) : Journals h h.shutdown := by
  have hfold (partitions : List String) (h : Host) : Journals h (partitions.foldl
      (fun h partition => (h.closePartition partition .shutdown).1) h) := by
    induction partitions generalizing h with
    | nil => exact journals_of_eq rfl
    | cons partition rest ih =>
      obtain ⟨hj, hnow⟩ := journals_closePartition h partition .shutdown
      exact hj.trans (ih _) hnow
  exact (journals_log h _).trans (hfold h.ownedPartitions _) rfl

theorem journals_stepRun {t : Ticket} {step : Site → Run → Option (Run × List Occurrence)}
    (hstep : h.stepRun t step = some h') : Journals h h' := by
  obtain ⟨b, -, -, -, os, -, -, -, -, rfl⟩ := stepRun_eq_some hstep
  exact journals_record _ b.lease (.message t) os

theorem journals_stepBatch {n : Nat} (hstep : h.stepBatch n = some h') : Journals h h' := by
  obtain ⟨b, -, -, -, os, -, -, -, rfl⟩ := stepBatch_eq_some hstep
  exact journals_record _ b.lease (.batch n) os

theorem Moves.journals (hmoves : Moves timely h h') : Journals h h' := by
  obtain ⟨a, ha, -⟩ := hmoves
  cases a with
  | step task =>
    cases task with
    | batch n => exact journals_stepBatch ha
    | worker t => exact journals_stepRun ha
    | strand t => exact journals_stepRun ha
    | canceller n =>
      obtain ⟨b, -, -, rfl⟩ := cancel?_eq_some ha
      exact journals_of_eq rfl
  | tick =>
    cases ha
    exact journals_of_eq rfl
  | openPartition partition checkpoint =>
    cases ha
    exact journals_log h _
  | setCheckpoint partition checkpoint =>
    cases ha
    unfold setCheckpoint
    split <;> exact journals_of_eq rfl
  | closePartition partition reason =>
    cases ha
    exact (journals_closePartition h partition reason).1
  | shutdown =>
    cases ha
    exact journals_shutdown h
  | accept partition events cancelled =>
    rw [act, accept] at ha
    split at ha
    · cases ha
    · cases ha
      exact journals_of_eq rfl

theorem deeds_eq_filter (h : Host) (place : Place) : h.deeds place
    = ((h.journal.filter (·.place = place)).map (·.occurrence)).filter (!·.isLogged) :=
  rfl

/-- As many ticks are read from the journal as there are deeds. -/
theorem length_times (h : Host) (place : Place) (hp : ∀ line, p (.logged line) = false) :
    (h.times place p).length = (h.deeds place).countP p := by
  have hdeed (o : Occurrence) : (p o && !o.isLogged) = p o := by
    cases o with
    | logged line => simp [hp]
    | _ => simp [Occurrence.isLogged]
  rw [times, List.length_map, ← List.countP_eq_length_filter, deeds_eq_filter, List.countP_filter]
  simp only [hdeed]
  rw [List.countP_map, List.countP_filter]
  rfl

/-- What happens now is read from the journal as happening now. -/
theorem Journals.times_eq (hj : Journals h h') (hp : ∀ line, p (.logged line) = false)
    (hdeeds : h'.deeds place = h.deeds place ++ os) :
    h'.times place p = h.times place p ++ List.replicate (os.countP p) h.now := by
  obtain ⟨entries, hentries, htime⟩ := hj
  have htimes : h'.times place p = h.times place p
      ++ (entries.filter fun e => p e.occurrence && e.place = place).map (·.time) := by
    rw [times, hentries, List.filter_append, List.map_append]
    rfl
  have hlength := congrArg List.length htimes
  rw [length_times h' place hp, hdeeds, List.countP_append, List.length_append,
    length_times h place hp] at hlength
  rw [htimes]
  congr 1
  rw [List.eq_replicate_iff]
  refine ⟨(Nat.add_left_cancel hlength).symm, ?_⟩
  intro tick htick
  obtain ⟨e, he, rfl⟩ := List.mem_map.mp htick
  exact htime e (List.mem_filter.mp he).1

/-! ## Starts and ends of workers -/

/-- The ticks at which the events of a batch were given to their workers, in order. -/
def starts (h : Host) (n : Nat) : List Nat := h.times (.batch n) Occurrence.isHandedOut

/-- The ticks at which a batch asked for a checkpoint. -/
def checkpointTimes (h : Host) (n : Nat) : List Nat :=
  h.times (.batch n) (· == .checkpointed)

/-- The tick at which the worker of a message has ended, if it has. -/
def end? (h : Host) (n j : Nat) : Option Nat :=
  match h.run? ⟨n, j⟩, (h.starts n)[j]? with
  | some r, some start =>
    if r.worker.isUnfinished then none
    else some (start + (h.site ⟨n, j⟩).span r.event r.timedOut)
  | _, _ => none

/-- How many workers of the first messages of a batch are unfinished at a tick. -/
def busy (h : Host) (n k tick : Nat) : Nat :=
  (List.range k).countP fun j => (h.end? n j).all (tick < ·)

section

variable {n j : Nat} {b b' : Batch} {r : Run} {start : Nat}

theorem end?_of_none (hr : h.run? ⟨n, j⟩ = none) : h.end? n j = none := by
  rw [end?, hr]

theorem end?_of_some (hr : h.run? ⟨n, j⟩ = some r) (hstart : (h.starts n)[j]? = some start) :
    h.end? n j = if r.worker.isUnfinished then none
      else some (start + (h.site ⟨n, j⟩).span r.event r.timedOut) := by
  rw [end?, hr, hstart]

theorem end?_of_unfinished (hr : h.run? ⟨n, j⟩ = some r) (hw : r.worker.isUnfinished = true) :
    h.end? n j = none := by
  rw [end?, hr]
  cases (h.starts n)[j]? with
  | none => rfl
  | some start => simp [hw]

theorem exists_of_end? {tick : Nat} (hend : h.end? n j = some tick) : ∃ r start,
    h.run? ⟨n, j⟩ = some r ∧ (h.starts n)[j]? = some start ∧ r.worker.isUnfinished = false
      ∧ tick = start + (h.site ⟨n, j⟩).span r.event r.timedOut := by
  unfold end? at hend
  split at hend
  · next r start hr hstart =>
    cases hw : r.worker.isUnfinished with
    | true => simp [hw] at hend
    | false =>
      simp only [hw, Bool.false_eq_true, if_false, Option.some.injEq] at hend
      exact ⟨r, start, hr, hstart, hw, hend.symm⟩
  · cases hend

theorem Sound.length_starts (hs : Sound timely h) (hb : h.batches[n]? = some b) :
    (h.starts n).length = b.runs.length := by
  have hlast : (if b.phase.isDone then [Occurrence.checkpointed] else []).countP
      Occurrence.isHandedOut = 0 := by
    cases b.phase.isDone <;> rfl
  rw [starts, length_times h (.batch n) fun _ => rfl, hs.history n b hb, Batch.history,
    List.countP_append, hlast, List.countP_eq_length.mpr]
  · simp
  · intro o ho
    obtain ⟨e, -, rfl⟩ := List.mem_map.mp ho
    rfl

theorem Sound.length_checkpointTimes (hs : Sound timely h) (hb : h.batches[n]? = some b) :
    (h.checkpointTimes n).length = b.phase.isDone.toNat := by
  rw [checkpointTimes, length_times h (.batch n) fun _ => rfl]
  exact hs.count_checkpointed hb

theorem Sound.exists_start (hs : Sound timely h) (hr : h.run? ⟨n, j⟩ = some r) :
    ∃ start, (h.starts n)[j]? = some start := by
  obtain ⟨b, hb, hr⟩ := run?_eq_some.mp hr
  obtain ⟨hlt, -⟩ := List.getElem?_eq_some_iff.mp hr
  rw [← hs.length_starts hb] at hlt
  exact ⟨_, List.getElem?_eq_getElem hlt⟩

/-! ## What a move does to starts and ends -/

/-- Either the clock goes on, and nothing else happens, or it stands still. -/
theorem Change.now_cases (hc : Change timely h h' place) : h'.now = h.now
    ∨ h' = { h with now := h.now + 1 } ∧ (timely = true → h.Settled) := by
  cases hc with
  | tick settled heq => exact .inr ⟨heq, settled⟩
  | aside ha => exact .inl ha.now_eq
  | accepted _ heq | cancelled _ _ heq =>
    subst heq
    exact .inl rfl
  | batch _ _ _ hnow | message _ _ _ _ hnow => exact .inl hnow

/-- What a batch does, it does now. -/
theorem Sound.times_append (hs : Sound timely h) (hmoves : Moves timely h h')
    (hb : h.batches[n]? = some b) (hp : ∀ line, p (.logged line) = false) :
    ∃ more, h'.times (.batch n) p = h.times (.batch n) p ++ List.replicate more h.now := by
  obtain ⟨place, hc⟩ := hs.change hmoves
  obtain ⟨-, os, -, -, hdeeds⟩ := hs.batch_cases hc hb
  exact ⟨os.countP p, hmoves.journals.times_eq hp hdeeds⟩

theorem Sound.starts_append (hs : Sound timely h) (hmoves : Moves timely h h')
    (hb : h.batches[n]? = some b) :
    ∃ more, h'.starts n = h.starts n ++ List.replicate more h.now :=
  hs.times_append hmoves hb fun _ => rfl

theorem Sound.start_kept (hs : Sound timely h) (hmoves : Moves timely h h')
    (hb : h.batches[n]? = some b) (hstart : (h.starts n)[j]? = some start) :
    (h'.starts n)[j]? = some start := by
  obtain ⟨more, hstarts⟩ := hs.starts_append hmoves hb
  obtain ⟨hlt, -⟩ := List.getElem?_eq_some_iff.mp hstart
  rw [hstarts, List.getElem?_append_left hlt, hstart]

/-- A message that had no worker before has one from now on. -/
theorem Sound.starts_now (hs : Sound timely h) (hmoves : Moves timely h h')
    (hb : h.batches[n]? = some b) (hr : h.run? ⟨n, j⟩ = none) (hr' : h'.run? ⟨n, j⟩ = some r)
    (hstart : (h'.starts n)[j]? = some start) :
    h'.now = h.now ∧ ∃ e, r = Run.new e ∧ start = h.now := by
  obtain ⟨place, hc⟩ := hs.change hmoves
  obtain ⟨more, hstarts⟩ := hs.starts_append hmoves hb
  constructor
  · rcases hc.now_cases with hnow | ⟨rfl, -⟩
    · exact hnow
    · exact absurd (hr.symm.trans hr') nofun
  · rcases hc.run_origin hr' with ⟨r₁, hr₁⟩ | ⟨e, rfl⟩
    · rw [hr] at hr₁
      cases hr₁
    · -- The worker is none of those that were there, so its start has only just been entered.
      have hle : (h.starts n).length ≤ j := by
        rw [hs.length_starts hb]
        rw [run?_of_batch hb] at hr
        exact List.getElem?_eq_none_iff.mp hr
      rw [hstarts, List.getElem?_append_right hle] at hstart
      exact ⟨e, rfl, List.eq_of_mem_replicate (List.mem_of_getElem? hstart)⟩

/-- The messages of a batch are as far as they can be by now. -/
def KeepsPace (h : Host) (n : Nat) : Prop := ∀ j r start, h.run? ⟨n, j⟩ = some r →
  (h.starts n)[j]? = some start → r.Paced (h.site ⟨n, j⟩) start

/-- On a timely host the messages of a batch keep pace. -/
theorem KeepsPace.step (hk : h.KeepsPace n) (hs : Sound true h) (hmoves : Moves true h h')
    (hb : h.batches[n]? = some b) : h'.KeepsPace n := by
  intro j r' start hr' hstart
  obtain ⟨place, hc⟩ := hs.change hmoves
  have hsite := hs.site_eq hc (t := ⟨n, j⟩) hb
  rw [hsite]
  cases hr : h.run? ⟨n, j⟩ with
  | some r =>
    obtain ⟨start₁, hstart₁⟩ := hs.exists_start hr
    obtain rfl := Option.some.inj ((hs.start_kept hmoves hb hstart₁).symm.trans hstart)
    have hpaced := hk j r start₁ hr hstart₁
    have hlife := hs.life _ r hr
    obtain ⟨r₁, os, hr₁, hcases, -⟩ := hc.run_cases hr
    obtain rfl := Option.some.inj (hr₁.symm.trans hr')
    cases hcases with
    | kept hnow =>
      rw [hnow]
      exact hpaced
    | tick hnow settled =>
      rw [hnow]
      exact hpaced.tick hlife.stage (hs.settled_run (settled rfl) hr)
    | worker hnow step =>
      rw [hnow]
      exact hpaced.worker_step hlife step
    | strand hnow step =>
      rw [hnow]
      exact hpaced.strand_step hlife step
  | none =>
    obtain ⟨hnow, e, rfl, rfl⟩ := hs.starts_now hmoves hb hr hr' hstart
    rw [hnow]
    exact Run.Paced.new (h.site ⟨n, j⟩) e

/-- A worker that has ended has ended by now. -/
theorem KeepsPace.end_le (hk : h.KeepsPace n) {tick : Nat} (hend : h.end? n j = some tick) :
    tick ≤ h.now := by
  obtain ⟨r, start, hr, hstart, hw, rfl⟩ := exists_of_end? hend
  exact (hk j r start hr hstart).finished hw

/-- Workers may end, but only now. -/
def Ends (h h' : Host) (n : Nat) : Prop := ∀ j, h'.end? n j = h.end? n j
  ∨ h.end? n j = none ∧ h'.end? n j = some h.now ∧ h'.now = h.now

/-- Whatever happens to a timely host, workers end only now. -/
theorem KeepsPace.ends (hk : h.KeepsPace n) (hs : Sound true h) (hmoves : Moves true h h')
    (hb : h.batches[n]? = some b) : Ends h h' n := by
  intro j
  obtain ⟨place, hc⟩ := hs.change hmoves
  have hsite := hs.site_eq hc (t := ⟨n, j⟩) hb
  have hspan (e : Event) (late : Bool) :
      (h'.site ⟨n, j⟩).span e late = (h.site ⟨n, j⟩).span e late := by
    rw [hsite]
    rfl
  cases hr : h.run? ⟨n, j⟩ with
  | none =>
    left
    rw [end?_of_none hr]
    cases hr' : h'.run? ⟨n, j⟩ with
    | none => exact end?_of_none hr'
    | some r' =>
      rcases hc.run_origin hr' with ⟨r, hr₁⟩ | ⟨e, rfl⟩
      · rw [hr] at hr₁
        cases hr₁
      · exact end?_of_unfinished hr' rfl
  | some r =>
    obtain ⟨start, hstart⟩ := hs.exists_start hr
    have hstart' := hs.start_kept hmoves hb hstart
    obtain ⟨r', os, hr', hcases, -⟩ := hc.run_cases hr
    rw [end?_of_some hr hstart, end?_of_some hr' hstart', hspan]
    cases hcases with
    | kept | tick => exact .inl rfl
    | strand _ step =>
      obtain ⟨strand, rfl, -⟩ := step.advances
      exact .inl rfl
    | worker hnow step =>
      rw [step.event_eq]
      cases hw : r.worker.isUnfinished with
      | false =>
        obtain ⟨hw', htime⟩ := step.finished hw
        rw [hw', htime]
        exact .inl rfl
      | true =>
        cases hw' : r'.worker.isUnfinished with
        | true => exact .inl rfl
        | false =>
          obtain ⟨htime, hend⟩ := (hk j r start hr hstart).ends_now (hs.life _ r hr) step hw hw'
          have hend : h.now = start + (h.site ⟨n, j⟩).span r.event r.timedOut := hend
          rw [htime, ← hend]
          exact .inr ⟨rfl, rfl, hnow⟩

/-! ## Slots in use -/

/-- Slots are not taken by those who had none. -/
theorem Ends.busy_le (he : Ends h h' n) (k tick : Nat) : h'.busy n k tick ≤ h.busy n k tick := by
  apply List.countP_mono_left
  intro j _ hj
  rcases he j with heq | ⟨hnone, -, -⟩
  · rwa [heq] at hj
  · rw [hnone]
    rfl

/-- At ticks that are past nothing changes. -/
theorem Ends.busy_eq (he : Ends h h' n) (k : Nat) {tick : Nat} (htick : tick < h.now) :
    h'.busy n k tick = h.busy n k tick := by
  apply List.countP_congr
  intro j _
  rcases he j with heq | ⟨hnone, hsome, -⟩
  · rw [heq]
  · rw [hnone, hsome]
    simp [htick]

/-- When the clock goes on, no worker ends. -/
theorem Ends.end?_eq (he : Ends h h' n) (hnow : h'.now ≠ h.now) (j : Nat) :
    h'.end? n j = h.end? n j := by
  rcases he j with heq | ⟨-, -, hnow'⟩
  · exact heq
  · exact absurd hnow' hnow

/-- Later fewer workers are unfinished. -/
theorem busy_anti (h : Host) (n k : Nat) {tick tick' : Nat} (hle : tick ≤ tick') :
    h.busy n k tick' ≤ h.busy n k tick := by
  apply List.countP_mono_left
  intro j _ hj
  cases hend : h.end? n j with
  | none => rfl
  | some e =>
    rw [hend] at hj
    simp only [Option.all_some, decide_eq_true_eq] at hj ⊢
    omega

theorem busy_succ_le (h : Host) (n k tick : Nat) : h.busy n (k + 1) tick ≤ h.busy n k tick + 1 := by
  rw [busy, busy, List.range_succ, List.countP_append]
  have hone := List.countP_le_length (p := fun j => (h.end? n j).all (tick < ·)) (l := [k])
  exact Nat.add_le_add_left hone _

/-- To count the members of a list one may count their numbers. -/
theorem countP_range_eq {α : Type} {l : List α} {p : Nat → Bool} {q : α → Bool}
    (hpq : ∀ (j : Nat) (a : α), l[j]? = some a → p j = q a) :
    (List.range l.length).countP p = l.countP q := by
  have hmap : (List.range l.length).map p = l.map q := by
    apply List.ext_getElem?
    intro j
    rw [List.getElem?_map, List.getElem?_map]
    rcases Nat.lt_or_ge j l.length with hlt | hge
    · have hj := List.getElem?_eq_getElem hlt
      rw [List.getElem?_range hlt, hj, Option.map_some, Option.map_some, hpq j _ hj]
    · rw [List.getElem?_eq_none hge, List.getElem?_eq_none (by simpa using hge)]
      rfl
  calc (List.range l.length).countP p = ((List.range l.length).map p).countP id := by
        rw [List.countP_map]
        rfl
    _ = (l.map q).countP id := by rw [hmap]
    _ = l.countP q := by
        rw [List.countP_map]
        rfl

/-- The slots that are taken now are those of the workers that are unfinished. -/
theorem KeepsPace.busy_now (hk : h.KeepsPace n) (hs : Sound timely h)
    (hb : h.batches[n]? = some b) : h.busy n b.runs.length h.now = b.unfinished := by
  apply countP_range_eq
  intro j r hr
  have hr : h.run? ⟨n, j⟩ = some r := run?_eq_some.mpr ⟨b, hb, hr⟩
  cases hw : r.worker.isUnfinished with
  | true => rw [end?_of_unfinished hr hw, Option.all_none]
  | false =>
    obtain ⟨start, hstart⟩ := hs.exists_start hr
    have hend := end?_of_some hr hstart
    rw [hw, if_neg Bool.false_ne_true] at hend
    have hle := hk.end_le hend
    rw [hend, Option.all_some, decide_eq_false_iff_not]
    omega

end

end Host

end StreamDispatch
