import StreamDispatch.Proofs.Dispatch.Script
import StreamDispatch.Proofs.Dispatch.Slots

set_option autoImplicit false

/-! # Batches are greedy

The workers of a batch make up a list schedule: the events are taken in the order in which they
arrived, and each gets a worker as soon as fewer workers than the width of the dispatcher are
unfinished. On a timely host nothing else decides on when a worker starts, so the starts follow from
how long each worker takes, one from the other, and the checkpoint is asked for when the last worker
ends. -/

namespace StreamDispatch

/-- A batch gives an event to a worker only if a slot is free. -/
theorem Batch.Change.hand_cases {d : Dispatcher} {b b' : Batch} {os : List Occurrence}
    (hc : Change d b b' os) : b'.runs.length = b.runs.length ∧ b'.waiting = b.waiting
      ∨ b'.runs.length = b.runs.length + 1 ∧ b.unfinished < d.width ∧ b.waiting ≠ [] := by
  cases hc with
  | step step =>
    cases step with
    | handedOut _ hw hu => exact .inr ⟨by simp, hu, by simp [hw]⟩
    | held | admitted | refused | filled | finished => exact .inl ⟨rfl, rfl⟩
    | noted => exact .inl ⟨by simp, rfl⟩
  | worker | strand => exact .inl ⟨by simp, rfl⟩
  | cancelled => exact .inl ⟨rfl, rfl⟩

namespace Host

variable {h h' h₁ : Host} {n admitted : Nat} {b b' : Batch} {d : Dispatcher} {i : Instrumentation}
  {σ : Nat → Host} {timely : Bool}

/-- Something for which a batch waits has come about at a tick: it was admitted, or a worker
ended. -/
def IsTurn (h : Host) (n admitted tick : Nat) : Prop :=
  tick = admitted ∨ ∃ j, h.end? n j = some tick

/-- How far a batch that was admitted at a tick has come. -/
structure OnSchedule (h : Host) (n admitted : Nat) (b : Batch) : Prop where
  batch : h.batches[n]? = some b
  isAdmitted : b.phase.isAdmitted = true
  pace : h.KeepsPace n
  past : ∀ tick ∈ admitted :: h.starts n, tick ≤ h.now
  least : ∀ j prev start, (admitted :: h.starts n)[j]? = some prev →
    (h.starts n)[j]? = some start →
      IsLeast {tick | prev ≤ tick ∧ h.busy n j tick < h.dispatcher.width} start
  /-- Since the last worker started, all slots have been taken. -/
  full : b.waiting ≠ [] → ∀ prev, (admitted :: h.starts n)[b.runs.length]? = some prev →
    ∀ tick, prev ≤ tick → tick < h.now → h.dispatcher.width ≤ h.busy n b.runs.length tick
  room : b.unfinished ≤ h.dispatcher.width
  lively : b.phase.isDone = false → b.unfinished ≠ 0 ∨ h.IsTurn n admitted h.now
  checkpoint : b.phase.isDone = true → ∃ tick, h.checkpointTimes n = [tick]
    ∧ IsGreatest {tick | h.IsTurn n admitted tick} tick

/-! ## What a move does to a batch -/

/-- One move, as a batch takes part in it that is on schedule. -/
structure Proceeds (h h' : Host) (n : Nat) (b b' : Batch) : Prop where
  ends : Ends h h' n
  dispatcher_eq : h'.dispatcher = h.dispatcher
  /-- A worker has started, in a slot that was free, or there are the same workers. -/
  hand : b'.runs.length = b.runs.length ∧ b'.waiting = b.waiting ∧ h'.starts n = h.starts n
    ∨ b'.runs.length = b.runs.length + 1 ∧ b.waiting ≠ [] ∧ b.unfinished < h.dispatcher.width
      ∧ h'.starts n = h.starts n ++ [h.now] ∧ h'.now = h.now
  /-- The clock goes on only when the batch can do nothing. -/
  clock : h'.now = h.now ∨ h'.now = h.now + 1 ∧ b' = b ∧ h.Settled
  continues : Continues b b'

theorem OnSchedule.proceeds (ho : h.OnSchedule n admitted b) (hs : Sound true h)
    (hmoves : Moves true h h') : ∃ b', h'.batches[n]? = some b' ∧ Proceeds h h' n b b' := by
  obtain ⟨place, hc⟩ := hs.change hmoves
  obtain ⟨b', os, hb', hcases, -⟩ := hs.batch_cases hc ho.batch
  obtain ⟨more, hstarts⟩ := hs.starts_append hmoves ho.batch
  have hlength := (hs.step hc).length_starts hb'
  rw [hstarts, List.length_append, hs.length_starts ho.batch, List.length_replicate] at hlength
  have hclock : h'.now = h.now ∨ h'.now = h.now + 1 ∧ b' = b ∧ h.Settled := by
    rcases hc.now_cases with hnow | ⟨rfl, hsettled⟩
    · exact .inl hnow
    · exact .inr ⟨rfl, Option.some.inj (hb'.symm.trans ho.batch), hsettled rfl⟩
  have hcontinues : Continues b b' := by
    obtain ⟨b₁, hb₁, hcontinues⟩ := hs.continues (.single hmoves) ho.batch
    obtain rfl := Option.some.inj (hb₁.symm.trans hb')
    exact hcontinues
  refine ⟨b', hb', ho.pace.ends hs hmoves ho.batch, hc.dispatcher_eq, ?_, hclock, hcontinues⟩
  have hhand : b'.runs.length = b.runs.length ∧ b'.waiting = b.waiting
      ∨ b'.runs.length = b.runs.length + 1 ∧ b.unfinished < h.dispatcher.width
        ∧ b.waiting ≠ [] := by
    rcases hcases with ⟨rfl, -⟩ | hchange
    · exact .inl ⟨rfl, rfl⟩
    · exact hchange.hand_cases
  rcases hhand with ⟨hruns, hwaiting⟩ | ⟨hruns, hu, hwaiting⟩
  · obtain rfl : more = 0 := by omega
    exact .inl ⟨hruns, hwaiting, by rw [hstarts, List.replicate_zero, List.append_nil]⟩
  · obtain rfl : more = 1 := by omega
    refine .inr ⟨hruns, hwaiting, hu, hstarts, ?_⟩
    rcases hclock with hnow | ⟨-, rfl, -⟩
    · exact hnow
    · omega

/-- No event waits on a settled host while a slot is free. -/
theorem Sound.full_of_settled (hs : Sound timely h) (hb : h.batches[n]? = some b)
    (ha : b.phase.isAdmitted = true) (hsettled : h.Settled) (hwaiting : b.waiting ≠ []) :
    h.dispatcher.width ≤ b.unfinished := by
  have horderly := hs.orderly n b hb
  obtain ⟨l, hl⟩ := hs.exists_lease hb
  have hphase : b.phase = .filling := by
    cases hp : b.phase with
    | filling => rfl
    | arriving | stalled found wake =>
      simp [hp, Batch.Phase.isAdmitted, Batch.Phase.isPending] at ha
    | draining => exact absurd (horderly.drained (.inl hp)) hwaiting
    | ended result time =>
      have hdone : b.phase.isDone = true := by
        by_contra hnot
        have hrefused := Batch.Phase.isAdmitted_of_ended hp (Bool.eq_false_of_not_eq_true hnot)
        rw [hrefused] at ha
        cases ha
      exact absurd (horderly.drained (.inr hdone)) hwaiting
  by_contra hlt
  have hstep := hsettled (.batch n) rfl
  cases hw : b.waiting with
  | nil => exact hwaiting hw
  | cons e rest =>
    have hu : b.unfinished < h.dispatcher.width := Nat.lt_of_not_le hlt
    simp [Host.step, stepBatch, hb, hl, Batch.step, hphase, Batch.stepFilling, hw, hu] at hstep

namespace OnSchedule

/-- A worker that starts is the first to find a slot free. -/
theorem least_step (ho : h.OnSchedule n admitted b) (hs : Sound true h)
    (hp : Proceeds h h' n b b') {j prev start : Nat}
    (hprev : (admitted :: h'.starts n)[j]? = some prev) (hstart : (h'.starts n)[j]? = some start) :
    IsLeast {tick | prev ≤ tick ∧ h'.busy n j tick < h'.dispatcher.width} start := by
  rw [hp.dispatcher_eq]
  -- What has started before has found its slot at a tick that is past.
  have hold (hprev : (admitted :: h.starts n)[j]? = some prev)
      (hstart : (h.starts n)[j]? = some start) :
      IsLeast {tick | prev ≤ tick ∧ h'.busy n j tick < h.dispatcher.width} start := by
    obtain ⟨⟨hle, hbusy⟩, hleast⟩ := ho.least j prev start hprev hstart
    have hpast := ho.past start (List.mem_cons_of_mem _ (List.mem_of_getElem? hstart))
    refine ⟨⟨hle, Nat.lt_of_le_of_lt (hp.ends.busy_le j start) hbusy⟩, ?_⟩
    rintro tick ⟨hle', hbusy'⟩
    by_contra hlt
    rw [hp.ends.busy_eq j (by omega)] at hbusy'
    exact hlt (hleast ⟨hle', hbusy'⟩)
  rcases hp.hand with ⟨-, -, hstarts⟩ | ⟨-, hwaiting, hu, hstarts, -⟩
  · rw [hstarts] at hprev hstart
    exact hold hprev hstart
  · have hlength := hs.length_starts ho.batch
    rw [hstarts] at hprev hstart
    rcases Nat.lt_or_ge j (h.starts n).length with hlt | hge
    · rw [List.getElem?_append_left hlt] at hstart
      rw [← List.cons_append, List.getElem?_append_left (by simp; omega)] at hprev
      exact hold hprev hstart
    · obtain ⟨hlt, -⟩ := List.getElem?_eq_some_iff.mp hstart
      rw [List.length_append, List.length_singleton] at hlt
      obtain rfl : j = (h.starts n).length := by omega
      rw [List.getElem?_concat_length] at hstart
      cases hstart
      rw [← List.cons_append, List.getElem?_append_left (by simp)] at hprev
      have hpast := ho.past prev (List.mem_of_getElem? hprev)
      rw [hlength] at hprev ⊢
      refine ⟨⟨hpast, ?_⟩, ?_⟩
      · have hbusy := hp.ends.busy_le b.runs.length h.now
        rw [ho.pace.busy_now hs ho.batch] at hbusy
        exact Nat.lt_of_le_of_lt hbusy hu
      · rintro tick ⟨hle, hbusy⟩
        by_contra hlt
        have htick : tick < h.now := by omega
        rw [hp.ends.busy_eq _ htick] at hbusy
        have hfull := ho.full hwaiting prev hprev tick hle htick
        omega

/-- No slot has been free since the last worker started. -/
theorem full_step (ho : h.OnSchedule n admitted b) (hs : Sound true h)
    (hp : Proceeds h h' n b b') (hwaiting : b'.waiting ≠ []) {prev tick : Nat}
    (hprev : (admitted :: h'.starts n)[b'.runs.length]? = some prev) (hle : prev ≤ tick)
    (hlt : tick < h'.now) : h'.dispatcher.width ≤ h'.busy n b'.runs.length tick := by
  rw [hp.dispatcher_eq]
  rcases hp.hand with ⟨hruns, hsame, hstarts⟩ | ⟨hruns, -, -, hstarts, hnow⟩
  · rw [hsame] at hwaiting
    rw [hruns, hstarts] at hprev
    rw [hruns]
    rcases Nat.lt_or_ge tick h.now with hpast | hnow
    · rw [hp.ends.busy_eq _ hpast]
      exact ho.full hwaiting prev hprev tick hle hpast
    · rcases hp.clock with hstill | ⟨htick, -, hsettled⟩
      · omega
      · -- The clock goes on, so the batch could do nothing at the tick that is past now.
        obtain rfl : tick = h.now := by omega
        have hbusy : h'.busy n b.runs.length h.now = h.busy n b.runs.length h.now := by
          simp only [busy, hp.ends.end?_eq (by omega)]
        rw [hbusy, ho.pace.busy_now hs ho.batch]
        exact hs.full_of_settled ho.batch ho.isAdmitted hsettled hwaiting
  · rw [hruns, hstarts, ← hs.length_starts ho.batch, List.getElem?_cons_succ,
      List.getElem?_concat_length] at hprev
    cases hprev
    omega

/-- There are never more workers than slots. -/
theorem room_step (ho : h.OnSchedule n admitted b) (hs : Sound true h) (hs' : Sound true h')
    (hb' : h'.batches[n]? = some b') (hk' : h'.KeepsPace n) (hp : Proceeds h h' n b b') :
    b'.unfinished ≤ h'.dispatcher.width := by
  have hroom := ho.room
  have hbefore := ho.pace.busy_now hs ho.batch
  have hle := hp.ends.busy_le b.runs.length h.now
  rw [hp.dispatcher_eq, ← hk'.busy_now hs' hb']
  rcases hp.hand with ⟨hruns, -, -⟩ | ⟨hruns, -, hu, -, hnow⟩
  · have hanti : h'.busy n b.runs.length h'.now ≤ h'.busy n b.runs.length h.now := by
      apply busy_anti
      rcases hp.clock with hnow | ⟨hnow, -, -⟩ <;> omega
    rw [hruns]
    omega
  · have hsucc := h'.busy_succ_le n b.runs.length h.now
    rw [hruns, hnow]
    omega

/-- A worker that was unfinished still is, or it has ended now. -/
theorem lively_still (ho : h.OnSchedule n admitted b) (hs : Sound true h) (hs' : Sound true h')
    (hmoves : Moves true h h') (hb' : h'.batches[n]? = some b') (hp : Proceeds h h' n b b')
    (hnow : h'.now = h.now) (hl : b.unfinished ≠ 0 ∨ h.IsTurn n admitted h.now) :
    b'.unfinished ≠ 0 ∨ h'.IsTurn n admitted h'.now := by
  rw [hnow]
  rcases hl with hu | hadmitted | ⟨j, hend⟩
  · obtain ⟨j, r, hr, hw⟩ := Batch.exists_unfinished hu
    have hr : h.run? ⟨n, j⟩ = some r := run?_eq_some.mpr ⟨b, ho.batch, hr⟩
    obtain ⟨r', hr', -⟩ := hs.run_continues (.single hmoves) hr
    cases hw' : r'.worker.isUnfinished with
    | true =>
      rw [run?_of_batch hb'] at hr'
      refine .inl (Nat.ne_of_gt (List.countP_pos_iff.mpr ⟨r', List.mem_of_getElem? hr', hw'⟩))
    | false =>
      obtain ⟨start, hstart⟩ := hs'.exists_start hr'
      have hend' := end?_of_some hr' hstart
      rw [hw', if_neg Bool.false_ne_true] at hend'
      rcases hp.ends j with heq | ⟨-, hended, -⟩
      · rw [heq, end?_of_unfinished hr hw] at hend'
        cases hend'
      · exact .inr (.inr ⟨j, hended⟩)
  · exact .inr (.inl hadmitted)
  · rcases hp.ends j with heq | ⟨hnone, -, -⟩
    · exact .inr (.inr ⟨j, heq.trans hend⟩)
    · rw [hnone] at hend
      cases hend

theorem lively_step (ho : h.OnSchedule n admitted b) (hs : Sound true h) (hs' : Sound true h')
    (hmoves : Moves true h h') (hb' : h'.batches[n]? = some b') (hp : Proceeds h h' n b b')
    (hd : b'.phase.isDone = false) : b'.unfinished ≠ 0 ∨ h'.IsTurn n admitted h'.now := by
  have hd₀ : b.phase.isDone = false := by
    by_contra hdone
    rw [hp.continues.done (Bool.eq_true_of_not_eq_false hdone)] at hd
    cases hd
  rcases hp.clock with hnow | ⟨-, rfl, hsettled⟩
  · exact ho.lively_still hs hs' hmoves hb' hp hnow (ho.lively hd₀)
  · -- The batch cannot go on itself, so it waits for a worker.
    left
    rcases Batch.goes_on ho.isAdmitted hd₀ with hgo | ⟨k, r, hr, hw⟩
    · have hstep := hs.isSome_stepBatch ho.batch hgo
      rw [hsettled (.batch n) rfl] at hstep
      cases hstep
    · exact Nat.ne_of_gt (List.countP_pos_iff.mpr ⟨r, List.mem_of_getElem? hr, hw⟩)

/-- No worker ends any more when a batch is done. -/
theorem end?_of_done (ho : h.OnSchedule n admitted b) (hs : Sound true h)
    (hb' : h'.batches[n]? = some b') (hp : Proceeds h h' n b b') (hd : b.phase.isDone = true)
    (j : Nat) : h'.end? n j = h.end? n j := by
  have horderly := hs.orderly n b ho.batch
  rcases hp.ends j with heq | ⟨hnone, hended, -⟩
  · exact heq
  · exfalso
    obtain ⟨r', -, hr', -⟩ := exists_of_end? hended
    rcases hp.hand with ⟨hruns, -⟩ | ⟨-, hwaiting, -⟩
    · rw [run?_of_batch hb'] at hr'
      obtain ⟨hlt, -⟩ := List.getElem?_eq_some_iff.mp hr'
      rw [hruns] at hlt
      have hr : h.run? ⟨n, j⟩ = some b.runs[j] :=
        run?_eq_some.mpr ⟨b, ho.batch, List.getElem?_eq_getElem hlt⟩
      have hw := horderly.joined hd b.runs[j] (List.getElem_mem hlt)
      obtain ⟨start, hstart⟩ := hs.exists_start hr
      rw [end?_of_some hr hstart, hw] at hnone
      cases hnone
    · exact hwaiting (horderly.drained (.inr hd))

/-- The checkpoint is asked for when the last worker has ended. -/
theorem checkpoint_step (ho : h.OnSchedule n admitted b) (hs : Sound true h)
    (hs' : Sound true h') (hmoves : Moves true h h') (hb' : h'.batches[n]? = some b')
    (hk' : h'.KeepsPace n) (hp : Proceeds h h' n b b') (hd' : b'.phase.isDone = true) :
    ∃ tick, h'.checkpointTimes n = [tick]
      ∧ IsGreatest {tick | h'.IsTurn n admitted tick} tick := by
  obtain ⟨more, htimes⟩ :=
    hs.times_append (p := (· == .checkpointed)) hmoves ho.batch fun _ => rfl
  have htimes : h'.checkpointTimes n = h.checkpointTimes n ++ List.replicate more h.now := htimes
  have hlength := congrArg List.length htimes
  rw [hs'.length_checkpointTimes hb', hd', List.length_append, hs.length_checkpointTimes ho.batch,
    List.length_replicate] at hlength
  cases hd : b.phase.isDone with
  | true =>
    rw [hd] at hlength
    obtain rfl : more = 0 := Nat.left_eq_add.mp hlength
    obtain ⟨tick, htick, hgreatest⟩ := ho.checkpoint hd
    refine ⟨tick, by rw [htimes, htick]; rfl, ?_⟩
    simp only [IsTurn, ho.end?_of_done hs hb' hp hd]
    exact hgreatest
  | false =>
    rw [hd, Bool.toNat_false, Nat.zero_add, Bool.toNat_true] at hlength
    obtain rfl := hlength
    have hempty : h.checkpointTimes n = [] := by
      rw [List.eq_nil_iff_length_eq_zero, hs.length_checkpointTimes ho.batch, hd]
      rfl
    have hnow : h'.now = h.now := by
      rcases hp.clock with hnow | ⟨-, rfl, -⟩
      · exact hnow
      · rw [hd] at hd'
        cases hd'
    refine ⟨h.now, by rw [htimes, hempty]; rfl, ?_, ?_⟩
    · rcases ho.lively_still hs hs' hmoves hb' hp hnow (ho.lively hd) with hu | hturn
      · -- All workers have been taken note of, so none is unfinished.
        obtain ⟨j, r, hr, hw⟩ := Batch.exists_unfinished hu
        have hjoined := (hs'.orderly n b' hb').joined hd' r (List.mem_of_getElem? hr)
        rw [hjoined] at hw
        cases hw
      · rwa [hnow] at hturn
    · rintro tick (rfl | ⟨j, hend⟩)
      · exact ho.past _ List.mem_cons_self
      · exact hnow ▸ hk'.end_le hend

/-- Whatever happens to a timely host, a batch that is on schedule stays so. -/
theorem step (ho : h.OnSchedule n admitted b) (hs : Sound true h) (hmoves : Moves true h h') :
    ∃ b', h'.OnSchedule n admitted b' := by
  obtain ⟨b', hb', hp⟩ := ho.proceeds hs hmoves
  have hs' : Sound true h' := hs.reaches (.single hmoves)
  have hk' := ho.pace.step hs hmoves ho.batch
  refine ⟨b', ?_⟩
  exact {
    batch := hb'
    isAdmitted := hp.continues.admitted ho.isAdmitted
    pace := hk'
    past := by
      have hle : h.now ≤ h'.now := by rcases hp.clock with hnow | ⟨hnow, -⟩ <;> omega
      intro tick htick
      rcases hp.hand with ⟨-, -, hstarts⟩ | ⟨-, -, -, hstarts, -⟩
      · rw [hstarts] at htick
        exact Nat.le_trans (ho.past tick htick) hle
      · rw [hstarts, ← List.cons_append, List.mem_append, List.mem_singleton] at htick
        rcases htick with htick | rfl
        · exact Nat.le_trans (ho.past tick htick) hle
        · exact hle
    least := fun _ _ _ => ho.least_step hs hp
    full := fun hwaiting _ hprev _ => ho.full_step hs hp hwaiting hprev
    room := ho.room_step hs hs' hb' hk' hp
    lively := ho.lively_step hs hs' hmoves hb' hp
    checkpoint := ho.checkpoint_step hs hs' hmoves hb' hk' hp }

theorem reaches (ho : h.OnSchedule n admitted b) (hs : Sound true h)
    (hreach : Reaches true h h') : ∃ b', h'.OnSchedule n admitted b' := by
  induction hreach with
  | refl => exact ⟨b, ho⟩
  | tail hreach hmoves ih =>
    obtain ⟨b₁, ho₁⟩ := ih
    exact ho₁.step (hs.reaches hreach) hmoves

end OnSchedule

/-! ## The greedy list schedule -/

end Host

end StreamDispatch
