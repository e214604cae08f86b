import StreamDispatch.Dispatch.Schedule
import StreamDispatch.Proofs.Dispatch.Waiting

set_option autoImplicit false

/-! # Schedules are timely

A schedule does not look for work: it waits until a task is woken or an alarm goes off. It misses
nothing all the same. Prompted work is in the queue, and work that waits for a tick has an alarm
there, so the clock never leaps over a tick at which something can be done. Whatever a schedule
leads to can be reached on a timely host. -/

namespace StreamDispatch

/-- Whether an act is about leases only. -/
def Act.isOfLease : Act → Bool
  | .openPartition _ _ | .setCheckpoint _ _ | .closePartition _ _ | .shutdown => true
  | _ => false

namespace Schedule

open Host (Reaches Sound Aside)

variable {s s' : Schedule} {timely : Bool}

/-- A schedule misses no work: what is prompted is in the queue, what waits for a tick has an alarm
or is in the queue as well, and alarms go off in future. -/
structure Wakeful (s : Schedule) : Prop where
  prompted : ∀ task, s.host.isPrompted task = true → task ∈ s.queue
  alarmed : ∀ task due, s.host.due? task = some due → task ∈ s.queue ∨ ⟨due, task⟩ ∈ s.alarms
  ahead : ∀ a ∈ s.alarms, s.host.now < a.due

theorem Wakeful.new (d : Dispatcher) (i : Instrumentation) : (Schedule.new (.new d i)).Wakeful where
  prompted task hp := by cases task <;> cases hp
  alarmed task due hd := by cases task <;> cases hd
  ahead _ := nofun

/-! ## Turns -/

theorem mem_woken {h : Host} {queue tasks : List Task} {task : Task} :
    task ∈ woken h queue tasks ↔ task ∈ tasks ∧ task ∉ queue ∧ (h.step task).isSome = true := by
  simp [woken]

/-- Work is prompted of tasks that work. -/
theorem isWork_of_prompted {h : Host} {task : Task} (hp : h.isPrompted task = true) :
    task.isWork = true := by
  cases task with
  | canceller n => cases hp
  | _ => rfl

theorem isWork_of_due {h : Host} {task : Task} {due : Nat} (hd : h.due? task = some due) :
    task.isWork = true := by
  cases task with
  | canceller n => cases hd
  | _ => rfl

/-- A task that has taken a step stays in the queue, and its followers join it. -/
theorem Wakeful.stepped (hw : s.Wakeful) (hs : Sound timely s.host) {task : Task} {h : Host}
    (hmem : task ∈ s.queue) (hstep : s.host.step task = some h) :
    Wakeful ⟨h, s.queue ++ woken h s.queue (h.followers task),
      s.alarms.filter (·.task ≠ task)⟩ where
  prompted other hp := by
    by_cases hne : other = task
    · exact List.mem_append_left _ (hne ▸ hmem)
    by_cases hqueued : other ∈ s.queue
    · exact List.mem_append_left _ hqueued
    -- What waited for something other than the queue can only have been prompted by this step.
    have hwork := isWork_of_prompted hp
    rcases (hs.spares hstep hne hwork).prompted hp with hp' | hfollower
    · exact absurd (hw.prompted other hp') hqueued
    · have hs' : Sound timely h := hs.reaches (.single ⟨.step task, hstep, fun _ => nofun⟩)
      have hgo : (h.step other).isSome = true := by rw [hs'.isSome_step hwork, hp, Bool.true_or]
      exact List.mem_append_right _ (mem_woken.mpr ⟨hfollower, hqueued, hgo⟩)
  alarmed other due hd := by
    by_cases hne : other = task
    · -- The task has lost its alarms, but it is in the queue itself.
      exact .inl (List.mem_append_left _ (hne ▸ hmem))
    have hbefore := (hs.spares hstep hne (isWork_of_due hd)).due due hd
    rcases hw.alarmed other due hbefore with hqueued | halarm
    · exact .inl (List.mem_append_left _ hqueued)
    · exact .inr (List.mem_filter.mpr ⟨halarm, by simpa using hne⟩)
  ahead a ha := by
    rw [Host.now_of_step hstep]
    exact hw.ahead a (List.mem_filter.mp ha).1

/-- A task that takes no step leaves the queue, and waits for its tick. -/
theorem Wakeful.rested (hw : s.Wakeful) (hs : Sound timely s.host) {task : Task} {rest : List Task}
    (hqueue : s.queue = task :: rest) (hstep : s.host.step task = none) {alarms : List Alarm}
    (hnew : ∀ a, a ∈ alarms ↔ a ∈ s.alarms ∨ a.task = task ∧ s.host.due? task = some a.due) :
    Wakeful { s with queue := rest, alarms := alarms } where
  prompted other hp := by
    have hmem := hw.prompted other hp
    rw [hqueue, List.mem_cons] at hmem
    rcases hmem with rfl | hmem
    · have hgo := hs.isSome_step (isWork_of_prompted hp)
      rw [hstep, hp, Bool.true_or] at hgo
      cases hgo
    · exact hmem
  alarmed other due hd := by
    rcases hw.alarmed other due hd with hmem | halarm
    · rw [hqueue, List.mem_cons] at hmem
      rcases hmem with rfl | hmem
      · exact .inr ((hnew _).mpr (.inr ⟨rfl, hd⟩))
      · exact .inl hmem
    · exact .inr ((hnew _).mpr (.inl halarm))
  ahead a ha := by
    rcases (hnew a).mp ha with halarm | ⟨rfl, hd⟩
    · exact hw.ahead a halarm
    · -- A task whose tick has come takes a step.
      have hgo := hs.isSome_step (isWork_of_due hd)
      rw [hstep, hd] at hgo
      apply Nat.lt_of_not_le
      intro hle
      simp [hle] at hgo

/-- A turn is a step of the first task in the queue, or the end of its turns. -/
theorem turn_cases (hturn : s.turn? = some s') : ∃ task rest, s.queue = task :: rest
    ∧ ((∃ h, s.host.step task = some h ∧ s' = ⟨h, s.queue ++ woken h s.queue (h.followers task),
          s.alarms.filter (·.task ≠ task)⟩)
      ∨ s.host.step task = none ∧ ∃ alarms, s' = { s with queue := rest, alarms := alarms }
        ∧ ∀ a, a ∈ alarms ↔ a ∈ s.alarms ∨ a.task = task ∧ s.host.due? task = some a.due) := by
  unfold turn? at hturn
  split at hturn
  · cases hturn
  · next task rest hqueue =>
    refine ⟨task, rest, hqueue, ?_⟩
    split at hturn
    · next h hstep => exact .inl ⟨h, hstep, (Option.some.inj hturn).symm⟩
    · next hstep =>
      refine .inr ⟨hstep, _, (Option.some.inj hturn).symm, ?_⟩
      intro a
      rw [List.mem_append, List.mem_filter, List.mem_map]
      constructor
      · rintro (ha | ⟨⟨due, hd, rfl⟩, -⟩)
        · exact .inl ha
        · exact .inr ⟨rfl, Option.mem_toList.mp hd⟩
      · rintro (ha | ⟨rfl, hd⟩)
        · exact .inl ha
        · by_cases ha : a ∈ s.alarms
          · exact .inl ha
          · exact .inr ⟨⟨a.due, Option.mem_toList.mpr hd, rfl⟩, by simpa using ha⟩

theorem Wakeful.turn (hw : s.Wakeful) (hs : Sound timely s.host) (hturn : s.turn? = some s') :
    s'.Wakeful ∧ Reaches timely s.host s'.host := by
  obtain ⟨task, rest, hqueue, ⟨h, hstep, rfl⟩ | ⟨hstep, alarms, rfl, hnew⟩⟩ := turn_cases hturn
  · have hmem : task ∈ s.queue := hqueue ▸ List.mem_cons_self
    exact ⟨hw.stepped hs hmem hstep, .single ⟨.step task, hstep, fun _ => nofun⟩⟩
  · exact ⟨hw.rested hs hqueue hstep hnew, .refl⟩

theorem now_of_turn (hturn : s.turn? = some s') : s'.host.now = s.host.now := by
  obtain ⟨task, rest, -, ⟨h, hstep, rfl⟩ | ⟨-, alarms, rfl, -⟩⟩ := turn_cases hturn
  · exact Host.now_of_step hstep
  · rfl

/-! ## Leaps -/

/-- Nothing can be done before the first alarm if the queue is empty. -/
theorem Wakeful.settled (hw : s.Wakeful) (hqueue : s.queue = []) {now : Nat}
    (hs : Sound timely { s.host with now }) (hnow : ∀ a ∈ s.alarms, now < a.due) :
    ({ s.host with now } : Host).Settled := by
  intro task hwork
  rw [← Option.not_isSome_iff_eq_none, hs.isSome_step hwork, Bool.or_eq_true, not_or]
  constructor
  · intro hp
    have hmem := hw.prompted task hp
    simp [hqueue] at hmem
  · intro hd
    obtain ⟨due, hdue, hle⟩ := (Option.any_eq_true ..).mp hd
    rcases hw.alarmed task due hdue with hmem | halarm
    · simp [hqueue] at hmem
    · have hlt : now < due := hnow _ halarm
      simp only [decide_eq_true_eq] at hle
      omega

/-- Until the first alarm the clock of a timely host goes on tick by tick. -/
theorem Wakeful.reaches_tick (hw : s.Wakeful) (hs : Sound true s.host) (hqueue : s.queue = [])
    (ticks : Nat) (hticks : ∀ a ∈ s.alarms, s.host.now + ticks ≤ a.due) :
    Reaches true s.host { s.host with now := s.host.now + ticks } := by
  induction ticks with
  | zero => exact .refl
  | succ ticks ih =>
    have hreach := ih fun a ha => Nat.le_of_succ_le (hticks a ha)
    exact hreach.tail ⟨.tick, rfl, fun _ _ =>
      hw.settled hqueue (hs.reaches hreach) fun a ha => hticks a ha⟩

theorem nextDue_spec {tick : Nat} (hnext : s.nextDue? = some tick) :
    (∃ a ∈ s.alarms, a.due = tick) ∧ ∀ a ∈ s.alarms, tick ≤ a.due := by
  obtain ⟨hmem, hle⟩ := List.min?_eq_some_iff.mp hnext
  exact ⟨List.mem_map.mp hmem, fun a ha => hle _ (List.mem_map_of_mem ha)⟩

/-- The clock leaps to the first alarm, and wakes everything that has waited for it. -/
theorem Wakeful.leap (hw : s.Wakeful) (hs : Sound true s.host) (hqueue : s.queue = []) {tick : Nat}
    (hnext : s.nextDue? = some tick) :
    (s.leap tick).Wakeful ∧ Reaches true s.host (s.leap tick).host := by
  obtain ⟨⟨a, ha, hdue⟩, hfirst⟩ := nextDue_spec hnext
  have hlt := hw.ahead a ha
  obtain ⟨ticks, rfl⟩ := Nat.exists_eq_add_of_le (hdue ▸ Nat.le_of_lt hlt)
  refine ⟨?_, hw.reaches_tick hs hqueue ticks hfirst⟩
  rw [Schedule.leap, List.partition_eq_filter_filter]
  constructor
  · intro task hp
    exact List.mem_append_left _ (hw.prompted task hp)
  · intro task due hd
    rcases hw.alarmed task due hd with hmem | halarm
    · exact .inl (List.mem_append_left _ hmem)
    -- An alarm goes off now, or it is kept.
    by_cases hle : due ≤ s.host.now + ticks
    · left
      apply List.mem_append_right
      exact List.mem_map.mpr ⟨⟨due, task⟩, List.mem_filter.mpr ⟨halarm, by simpa using hle⟩, rfl⟩
    · exact .inr (List.mem_filter.mpr ⟨halarm, by simpa using hle⟩)
  · intro a ha
    obtain ⟨-, hlate⟩ := List.mem_filter.mp ha
    simpa using hlate

/-! ## Runs -/

theorem queue_eq_nil (hturn : s.turn? = none) : s.queue = [] := by
  unfold turn? at hturn
  split at hturn
  · assumption
  · split at hturn <;> cases hturn

/-- Whatever a schedule runs to can be reached on a timely host. -/
theorem Wakeful.run (hw : s.Wakeful) (hs : Sound true s.host) (wanted : Host → Bool)
    (limit : Option Nat) (fuel : Nat) :
    (s.run wanted limit fuel).Wakeful ∧ Reaches true s.host (s.run wanted limit fuel).host := by
  induction fuel generalizing s with
  | zero => exact ⟨hw, .refl⟩
  | succ fuel ih =>
    have hlater {s' : Schedule} (hnext : s'.Wakeful ∧ Reaches true s.host s'.host) :
        (s'.run wanted limit fuel).Wakeful
          ∧ Reaches true s.host (s'.run wanted limit fuel).host := by
      obtain ⟨hw', hreach⟩ := hnext
      obtain ⟨hw'', hreach'⟩ := ih hw' (hs.reaches hreach)
      exact ⟨hw'', hreach.trans hreach'⟩
    rw [Schedule.run]
    split
    · next s' hturn => exact hlater (hw.turn hs hturn)
    · next hturn =>
      split
      · exact ⟨hw, .refl⟩
      · split
        · exact ⟨hw, .refl⟩
        · next tick hnext =>
          split
          · exact hlater (hw.leap hs (queue_eq_nil hturn) hnext)
          · exact ⟨hw, .refl⟩

/-- Nothing is left to do up to a tick. -/
def IsIdleUntil (s : Schedule) (limit : Nat) : Prop :=
  s.queue = [] ∧ ∀ a ∈ s.alarms, limit < a.due

theorem now_run_le {wanted : Host → Bool} {limit fuel : Nat} (hnow : s.host.now ≤ limit) :
    (s.run wanted (some limit) fuel).host.now ≤ limit := by
  induction fuel generalizing s with
  | zero => exact hnow
  | succ fuel ih =>
    rw [Schedule.run]
    split
    · next s' hturn => exact ih (now_of_turn hturn ▸ hnow)
    · split
      · exact hnow
      · split
        · exact hnow
        · next tick _ =>
          split
          · next hle => exact ih (by simpa [Schedule.leap] using hle)
          · exact hnow

/-- If nothing is left to do, the clock may be set. -/
theorem Wakeful.advance (hw : s.Wakeful) (hs : Sound true s.host) {fuel ticks : Nat}
    (hidle : (s.run (fun _ => false) (some (s.host.now + ticks)) fuel).IsIdleUntil
      (s.host.now + ticks)) :
    (s.advance fuel ticks).Wakeful ∧ Reaches true s.host (s.advance fuel ticks).host := by
  obtain ⟨hw', hreach⟩ := hw.run hs (fun _ => false) (some (s.host.now + ticks)) fuel
  have hnow : (s.run (fun _ => false) (some (s.host.now + ticks)) fuel).host.now
      ≤ s.host.now + ticks := now_run_le (Nat.le_add_right ..)
  rw [Schedule.advance]
  generalize s.run (fun _ => false) (some (s.host.now + ticks)) fuel = s' at *
  obtain ⟨hqueue, halarms⟩ := hidle
  constructor
  · exact ⟨hw'.prompted, hw'.alarmed, halarms⟩
  · obtain ⟨more, hmore⟩ := Nat.exists_eq_add_of_le hnow
    simp only [hmore] at halarms ⊢
    exact hreach.trans (hw'.reaches_tick (hs.reaches hreach) hqueue more fun a ha =>
      Nat.le_of_lt (halarms a ha))

/-! ## What the host is asked to do -/

theorem aside_of_lease {h h' : Host} {a : Act} (ha : a.isOfLease = true)
    (hact : h.act a = some h') : Aside h h' := by
  cases a with
  | openPartition partition checkpoint =>
    exact Option.some.inj hact ▸ Host.aside_openPartition h partition checkpoint
  | setCheckpoint partition checkpoint =>
    exact Option.some.inj hact ▸ Host.aside_setCheckpoint h partition checkpoint
  | closePartition partition reason =>
    exact Option.some.inj hact ▸ Host.aside_closePartition h partition reason
  | shutdown => exact Option.some.inj hact ▸ Host.aside_shutdown h
  | step | tick | accept => cases ha

/-- Leases have nothing to do with the work on batches that have arrived. -/
theorem Wakeful.aside (hw : s.Wakeful) {h : Host} (ha : Aside s.host h) :
    Wakeful { s with host := h } where
  prompted task hp := by
    apply hw.prompted
    cases task with
    | batch n => rwa [Host.isPrompted, ha.batches_eq, ha.quiet.dispatcher_eq] at hp
    | worker t => rwa [Host.isPrompted, Host.run?_of_batches_eq ha.batches_eq] at hp
    | strand t => rwa [Host.isPrompted, Host.run?_of_batches_eq ha.batches_eq] at hp
    | canceller n => cases hp
  alarmed task due hd := by
    apply hw.alarmed
    rw [← hd]
    cases task <;> simp only [Host.due?, ha.batches_eq]
  ahead a hmem := by
    rw [ha.now_eq]
    exact hw.ahead a hmem

/-- A batch that arrives joins the queue. -/
theorem Wakeful.deliver (hw : s.Wakeful) {partition : String} {events : Option (List Event)}
    {cancelAfter : Option Nat} (hdeliver : s.deliver partition events cancelAfter = .ok s') :
    s'.Wakeful ∧ Reaches timely s.host s'.host := by
  simp only [Schedule.deliver, bind, Except.bind, pure, Except.pure] at hdeliver
  split at hdeliver
  · cases hdeliver
  · next h haccept =>
    cases hdeliver
    refine ⟨?_, Host.reaches_accept haccept⟩
    obtain ⟨lease, -, heq⟩ := Host.accept_eq_ok haccept
    have hbatches : h.batches = s.host.batches
        ++ [Batch.new lease (events.getD []) (cancelAfter == some 0)] := by rw [heq]
    constructor
    · intro task hp
      apply List.mem_append.mpr
      rcases Host.isPrompted_of_accepted hbatches (by rw [heq]) hp with hp | rfl
      · exact .inl (hw.prompted task hp)
      · exact .inr List.mem_cons_self
    · intro task due hd
      have hbefore := hw.alarmed task due (Host.due?_of_accepted hbatches hd)
      exact hbefore.imp (List.mem_append_left _) (List.mem_append_left _)
    · intro a ha
      have hnow : h.now = s.host.now := by rw [heq]
      rw [hnow]
      rcases List.mem_append.mp ha with ha | ha
      · exact hw.ahead a ha
      · -- A batch that is to be cancelled at once gets no alarm.
        obtain ⟨ticks, hticks, rfl⟩ := List.mem_map.mp ha
        have hpos := (Option.mem_filter_iff.mp (Option.mem_toList.mp hticks)).2
        exact Nat.lt_add_of_pos_right (by simpa using hpos)

/-- Only the queue grows when a batch is to be cancelled. -/
theorem Wakeful.cancel (hw : s.Wakeful) (index : Nat) : (s.cancel index).Wakeful where
  prompted task hp := List.mem_append_left _ (hw.prompted task hp)
  alarmed task due hd := (hw.alarmed task due hd).imp_left (List.mem_append_left _)
  ahead := hw.ahead

/-- What a schedule comes to when its host is asked to do one thing after another. -/
inductive Operated (d : Dispatcher) (i : Instrumentation) : Schedule → Prop
  | new : Operated d i (.new (.new d i))
  | leased {s : Schedule} {a : Act} {host : Host} (hs : Operated d i s)
      (ha : a.isOfLease = true) (hact : s.host.act a = some host) :
      Operated d i { s with host }
  | delivered {s s' : Schedule} {partition : String} {events : Option (List Event)}
      {cancelAfter : Option Nat} (hs : Operated d i s)
      (hdeliver : s.deliver partition events cancelAfter = .ok s') : Operated d i s'
  | cancelled {s : Schedule} (hs : Operated d i s) (index : Nat) : Operated d i (s.cancel index)
  | run {s : Schedule} (hs : Operated d i s) (wanted : Host → Bool) (limit : Option Nat)
      (fuel : Nat) : Operated d i (s.run wanted limit fuel)
  | advanced {s : Schedule} {fuel ticks : Nat} (hs : Operated d i s)
      (hidle : (s.run (fun _ => false) (some (s.host.now + ticks)) fuel).IsIdleUntil
        (s.host.now + ticks)) : Operated d i (s.advance fuel ticks)

/-- Whatever a host is asked to do, its schedule misses no work, and what it comes to can be reached
on a timely host. -/
theorem Operated.reaches {d : Dispatcher} {i : Instrumentation} (ho : Operated d i s) :
    s.Wakeful ∧ Reaches true (.new d i) s.host := by
  -- Going on from a host that can be reached, one stays with those that can be.
  have hgo {s s' : Schedule} (hreach : Reaches true (.new d i) s.host)
      (hnext : s'.Wakeful ∧ Reaches true s.host s'.host) :
      s'.Wakeful ∧ Reaches true (.new d i) s'.host :=
    ⟨hnext.1, hreach.trans hnext.2⟩
  induction ho with
  | new => exact ⟨.new d i, .refl⟩
  | @leased s a host _ ha hact ih =>
    obtain ⟨hw, hreach⟩ := ih
    refine hgo hreach ⟨hw.aside (aside_of_lease ha hact), .single ⟨a, hact, fun _ htick => ?_⟩⟩
    subst htick
    cases ha
  | delivered _ hdeliver ih => exact hgo ih.2 (ih.1.deliver hdeliver)
  | cancelled _ index ih => exact ⟨ih.1.cancel index, ih.2⟩
  | run _ wanted limit fuel ih =>
    exact hgo ih.2 (ih.1.run (Host.sound_of_reaches ih.2) wanted limit fuel)
  | advanced _ hidle ih => exact hgo ih.2 (ih.1.advance (Host.sound_of_reaches ih.2) hidle)

end Schedule

end StreamDispatch
