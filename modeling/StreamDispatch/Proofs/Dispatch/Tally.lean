import StreamDispatch.Proofs.Dispatch.Script

set_option autoImplicit false

/-! # Levels and counters

The level of a gate, the number of handlers at work and the other counters are kept by several
tasks, which never look at the messages. They are right nevertheless at all times: each step of a
message changes them by exactly as much as it changes the message. -/

namespace StreamDispatch

open Occurrence (rise)

/-- How often a happening is counted. -/
def Occurrence.tally (happening : Counters.Happening) (os : List Occurrence) : Nat :=
  os.count (.counted happening)

open Occurrence (tally)

/-- The counters after some happenings. -/
def Counters.after (c : Counters) (os : List Occurrence) : Counters where
  faulted := c.faulted + tally .faulted os
  processed := c.processed + tally .processed os
  timeouts := c.timeouts + tally .timedOut os
  current := c.current + (tally .started os - tally .ended os)

theorem Instrumentation.foldl_record (c : Counters) (os : List Occurrence) :
    os.foldl Instrumentation.record (some c) = some (c.after os) := by
  induction os generalizing c with
  | nil => simp [Counters.after, tally]
  | cons o os ih =>
    cases o with
    | counted happening =>
      rw [List.foldl_cons, record, count, Option.map_some, ih]
      cases happening <;> simp [Counters.after, Counters.count, tally] <;> omega
    | _ => simp [record, ih, Counters.after, tally]

namespace Run

variable {s : Site} {r r' : Run} {os : List Occurrence}

/-! ## One step of a message -/

/-- What is counted in a step of a message is how the message changes. -/
structure Follows (r r' : Run) (os : List Occurrence) : Prop where
  level : rise os + r.strand.isInFlight.toNat = r'.strand.isInFlight.toNat
  current : (tally .started os : Int) - tally .ended os = rise os
  processed : tally .processed os + r.strand.hasReturned.toNat = r'.strand.hasReturned.toNat
  timeouts : tally .timedOut os + r.timedOut.toNat = r'.timedOut.toNat
  faulted : tally .faulted os = os.countP Occurrence.isFault

theorem WorkerStep.follows (h : WorkerStep s r r' os) (hr : Stage s r) : Follows r r' os := by
  cases h with
  | launched hw =>
    have hs : r.strand = .absent := by
      cases hr with
      | untouched _ _ hs => exact hs
      | _ => simp_all [Worker.isUnfinished]
    refine ⟨?_, ?_, ?_, ?_, ?_⟩ <;>
      simp [hs, tally, Occurrence.lift, Occurrence.isFault, Strand.isInFlight,
        Strand.hasReturned]
  | timedOut hw =>
    obtain ⟨ht, -⟩ := hr.racing_of hw
    refine ⟨?_, ?_, ?_, ?_, ?_⟩ <;>
      simp [ht, tally, Occurrence.lift, Occurrence.isFault]
  | failed | won | joined | timeoutReported | timeoutLost | failureReported | noted =>
    refine ⟨?_, ?_, ?_, ?_, ?_⟩ <;>
      simp [tally, Occurrence.lift, Occurrence.isFault]

theorem StrandStep.follows (h : StrandStep s r r' os) : Follows r r' os := by
  cases h with
  | called hs | calledUnknown hs | faultReported abnormal hs =>
    refine ⟨?_, ?_, ?_, ?_, ?_⟩ <;>
      simp [hs, tally, Occurrence.lift, Occurrence.isFault, Site.call,
        Strand.isInFlight, Strand.hasReturned]
  | completed hs _ ho | faulted hs _ ho | unknownLost hs _ _ ho =>
    refine ⟨?_, ?_, ?_, ?_, ?_⟩ <;>
      simp [hs, ho, tally, Occurrence.lift, Occurrence.isFault,
        Occurrence.leaving, Strand.isInFlight, Strand.hasReturned]
  | unknownReported hs =>
    refine ⟨?_, ?_, ?_, ?_, ?_⟩ <;>
      simp [hs, tally, Occurrence.lift, Occurrence.isFault, Outcome.fault?,
        Occurrence.leaving, Strand.isInFlight, Strand.hasReturned]

/-- A message without a handler has no strand, and its worker does nothing but report that. -/
theorem Stage.of_unassigned (hr : Stage s r) {text : String}
    (ha : s.assigned r.event = .error text) : r.strand = .absent
      ∧ (r.worker = .ready ∨ (∃ d, r.worker = .reportingFailure d)
        ∨ r.worker.isUnfinished = false) := by
  cases hr with
  | untouched hw _ hs => exact ⟨hs, .inl hw⟩
  | failing _ hs _ hw => exact ⟨hs, .inr (.inl ⟨_, hw⟩)⟩
  | failed _ hs _ hw => exact ⟨hs, .inr (.inr hw)⟩
  | racing ha' | joining ha' | inTime ha' | reportingTimeout ha' | reportingLoss ha' | late ha' =>
    cases ha'.symm.trans ha

theorem WorkerStep.uncounted (h : WorkerStep s r r' os) (hr : Stage s r) {text : String}
    (ha : s.assigned r.event = .error text) :
    rise os = 0 ∧ ∀ i : Instrumentation, os.foldl Instrumentation.record i = i := by
  obtain ⟨-, hcases⟩ := hr.of_unassigned ha
  cases h with
  | launched _ ha' => cases ha'.symm.trans ha
  | failed | failureReported | noted => exact ⟨by simp [Occurrence.lift], fun _ => rfl⟩
  | won hw | timedOut hw | joined hw | timeoutReported hw | timeoutLost hw =>
    simp [hw, Worker.isUnfinished] at hcases

end Run

/-! ## Sums over all messages -/

/-- A property of messages of which batches know nothing: no message has it from the start, and it
does not depend on the worker. -/
structure Run.Unnoticed (p : Run → Bool) : Prop where
  new : ∀ e, p (Run.new e) = false
  worker : ∀ (r : Run) (worker : Worker), p { r with worker } = p r

theorem countP_eq_sum {α : Type} (p : α → Bool) (as : List α) :
    as.countP p = (as.map fun a => (p a).toNat).sum := by
  induction as with
  | nil => rfl
  | cons a as ih =>
    rw [List.countP_cons, List.map_cons, List.sum_cons, ih]
    cases p a <;> simp [Nat.add_comm]

/-- Changing one message changes a number of messages by as much. -/
theorem countP_set_run (p : Run → Bool) {runs : List Run} {k : Nat} {r : Run} (r' : Run)
    (hr : runs[k]? = some r) :
    (runs.set k r').countP p + (p r).toNat = runs.countP p + (p r').toNat := by
  rw [countP_eq_sum, countP_eq_sum]
  exact Batch.sum_map_set (fun r => (p r).toNat) r' hr

theorem Batch.Step.countP_eq {d : Dispatcher} {l : Lease} {now : Nat} {b b' : Batch}
    {os : List Occurrence} (h : Step d l now b b' os) {p : Run → Bool} (hp : Run.Unnoticed p) :
    b'.runs.countP p = b.runs.countP p := by
  cases h with
  | held | admitted | refused | filled | finished => rfl
  | @handedOut e => simp [hp.new e]
  | @noted k r _ _ hr =>
    have hset := countP_set_run p { r with worker := .joined } hr
    rw [hp.worker r .joined] at hset
    exact Nat.add_right_cancel hset

theorem Batch.Step.follows {d : Dispatcher} {l : Lease} {now : Nat} {b b' : Batch}
    {os : List Occurrence} (h : Step d l now b b' os) (r : Run) : Run.Follows r r os := by
  cases h with
  | held | admitted | refused | filled | noted | handedOut | finished =>
    refine ⟨?_, ?_, ?_, ?_, ?_⟩ <;> simp [tally, Occurrence.lift, Occurrence.isFault]

namespace Host

variable {h h' : Host} {timely : Bool}

/-- The number of messages that have a property, each weighed by its lease. -/
def total (h : Host) (weight : Nat → Nat) (p : Run → Bool) : Nat :=
  (h.batches.map fun b => weight b.lease * b.runs.countP p).sum

/-- A host with its first batches only. -/
def upTo (h : Host) (n : Nat) : Host := { h with batches := h.batches.take n }

theorem total_set {n : Nat} {b b' : Batch} (hb : h.batches[n]? = some b)
    (hbatches : h'.batches = h.batches.set n b') (hlease : b'.lease = b.lease)
    (weight : Nat → Nat) (p : Run → Bool) :
    h'.total weight p + weight b.lease * b.runs.countP p
      = h.total weight p + weight b.lease * b'.runs.countP p := by
  have hsum := Batch.sum_map_set (fun b => weight b.lease * b.runs.countP p) b' hb
  simpa only [total, hbatches, hlease] using hsum

/-- What is counted in a change of a host is how one of its messages changes, if any does. -/
structure Follows (h h' : Host) (lease : Nat) (r r' : Run) (os : List Occurrence) : Prop where
  run : Run.Follows r r' os
  total : ∀ (weight : Nat → Nat) (p : Run → Bool), Run.Unnoticed p →
    h'.total weight p + weight lease * (p r).toNat
      = h.total weight p + weight lease * (p r').toNat
  level : ∀ n, h'.level n = h.level n + if n = lease then rise os else 0
  instrumentation : h'.instrumentation = os.foldl Instrumentation.record h.instrumentation
  faults : h'.faults = h.faults + os.countP Occurrence.isFault

/-- Nothing is counted in a change that no message has a part in. -/
theorem follows_of_total_eq (r : Run) {place : Place} {lease : Nat} {os : List Occurrence}
    (hrun : Run.Follows r r os) (shows : Shows h h' place lease os)
    (htotal : ∀ (weight : Nat → Nat) (p : Run → Bool), Run.Unnoticed p →
      h'.total weight p = h.total weight p) : Follows h h' lease r r os where
  run := hrun
  total weight p hp := by rw [htotal weight p hp]
  level := shows.level_eq
  instrumentation := shows.instrumentation_eq
  faults := shows.faults_eq

theorem Run.follows_refl (r : Run) : Run.Follows r r [] := by
  refine ⟨?_, ?_, ?_, ?_, ?_⟩ <;> simp [tally]

theorem Sound.follows (hs : Sound timely h) {place : Place} (hc : Change timely h h' place) :
    ∃ lease r r' os, Follows h h' lease r r' os := by
  -- Whatever is not a step of a message counts for any message that stays as it is.
  have hquiet (hq : Quiet h h') (htotal : ∀ (weight : Nat → Nat) (p : Run → Bool),
      Run.Unnoticed p → h'.total weight p = h.total weight p) :
      ∃ lease r r' os, Follows h h' lease r r' os :=
    ⟨_, Run.new default, _, _, follows_of_total_eq _ (Run.follows_refl _) hq htotal⟩
  cases hc with
  | tick _ heq =>
    subst heq
    exact hquiet (quiet_of_eq rfl rfl rfl rfl) fun _ _ _ => rfl
  | aside ha => exact hquiet ha.quiet fun _ _ _ => by simp only [total, ha.batches_eq]
  | accepted _ heq =>
    subst heq
    exact hquiet (quiet_of_eq rfl rfl rfl rfl) fun _ _ _ => by simp [total, Batch.new]
  | @cancelled n b hb _ heq =>
    refine hquiet (heq ▸ quiet_of_eq rfl rfl rfl rfl) ?_
    intro weight p _
    have hbatches : h'.batches = h.batches.set n { b with cancelled := true } := heq ▸ rfl
    have hset := total_set hb hbatches rfl weight p
    exact Nat.add_right_cancel hset
  | batch hb step hbatches _ _ shows =>
    refine ⟨_, Run.new default, _, _, follows_of_total_eq _ (step.follows _) shows ?_⟩
    intro weight p hp
    have hset := total_set hb hbatches step.lease_eq weight p
    rw [step.countP_eq hp] at hset
    exact Nat.add_right_cancel hset
  | @message t b r r' os hb hr step hbatches _ _ shows =>
    refine ⟨b.lease, r, r', os, ?_, fun weight p hp => ?_, shows.level_eq,
      shows.instrumentation_eq, shows.faults_eq⟩
    · rcases step with step | step
      · exact step.follows (hs.stage (run?_eq_some.mpr ⟨b, hb, hr⟩))
      · exact step.follows
    · have hset := total_set hb hbatches rfl weight p
      have hcount := countP_set_run p r' hr
      have hweigh := congrArg (weight b.lease * ·) hcount
      simp only [Nat.mul_add] at hset hweigh
      omega

/-! ## Levels and counters are right at all times -/

variable {d : Dispatcher}

/-- The level of a gate is the number of handlers of its lease that are in flight. -/
theorem level_eq_total {i : Instrumentation} (hreach : Reaches timely (.new d i) h) (n : Nat) :
    h.level n = h.total (fun lease => if lease = n then 1 else 0) (·.strand.isInFlight) := by
  induction hreach with
  | refl => rfl
  | tail hreach hmoves ih =>
    have hs := sound_of_reaches hreach
    obtain ⟨place, hchange⟩ := hs.change hmoves
    obtain ⟨lease, r, r', os, hf⟩ := hs.follows hchange
    have htotal := hf.total (fun lease => if lease = n then 1 else 0) (·.strand.isInFlight)
      ⟨fun _ => rfl, fun _ _ => rfl⟩
    have hrise := hf.run.level
    rw [hf.level]
    -- A handler of another lease weighs nothing, and leaves the level alone.
    by_cases hn : n = lease
    · simp only [hn, ↓reduceIte, Nat.one_mul] at htotal ih ⊢
      omega
    · simp only [hn, Ne.symm hn, ↓reduceIte, Nat.zero_mul] at htotal ih ⊢
      omega

/-- The counters are what the messages and the journal say. -/
structure Tallied (h : Host) (c : Counters) : Prop where
  counters : h.instrumentation = some c
  current : c.current = h.total (fun _ => 1) (·.strand.isInFlight)
  processed : c.processed = h.total (fun _ => 1) (·.strand.hasReturned)
  timeouts : c.timeouts = h.total (fun _ => 1) (·.timedOut)
  faulted : c.faulted = h.faults

theorem Tallied.step {c : Counters} (ht : Tallied h c) {lease : Nat} {r r' : Run}
    {os : List Occurrence} (hf : Follows h h' lease r r' os) : Tallied h' (c.after os) where
  counters := by rw [hf.instrumentation, ht.counters, Instrumentation.foldl_record]
  current := by
    have htotal := hf.total (fun _ => 1) (·.strand.isInFlight) ⟨fun _ => rfl, fun _ _ => rfl⟩
    have hrise := hf.run.level
    have hcurrent := hf.run.current
    have hc := ht.current
    simp only [Counters.after]
    omega
  processed := by
    have htotal := hf.total (fun _ => 1) (·.strand.hasReturned) ⟨fun _ => rfl, fun _ _ => rfl⟩
    have hprocessed := hf.run.processed
    have hc := ht.processed
    simp only [Counters.after]
    omega
  timeouts := by
    have htotal := hf.total (fun _ => 1) (·.timedOut) ⟨fun _ => rfl, fun _ _ => rfl⟩
    have htimeouts := hf.run.timeouts
    have hc := ht.timeouts
    simp only [Counters.after]
    omega
  faulted := by rw [Counters.after, hf.faults, ht.faulted, hf.run.faulted]

theorem tallied_of_reaches (hreach : Reaches timely (.new d (some .zero)) h) :
    ∃ c, Tallied h c := by
  induction hreach with
  | refl => exact ⟨.zero, rfl, rfl, rfl, rfl, rfl⟩
  | tail hreach hmoves ih =>
    obtain ⟨c, hc⟩ := ih
    have hs := sound_of_reaches hreach
    obtain ⟨place, hchange⟩ := hs.change hmoves
    obtain ⟨lease, r, r', os, hf⟩ := hs.follows hchange
    exact ⟨_, hc.step hf⟩

/-- The messages with a worker, of all batches. -/
def runs (h : Host) : List Run := h.batches.flatMap (·.runs)

theorem total_one (p : Run → Bool) : h.total (fun _ => 1) p = h.runs.countP p := by
  simp [total, runs, List.countP_flatMap, Function.comp_def]

theorem total_lease (n : Nat) :
    h.total (fun lease => if lease = n then 1 else 0) (·.strand.isInFlight)
      = h.inFlight.count n := by
  simp only [total, inFlight, List.count_flatMap, Function.comp_def, List.count_replicate]
  refine congrArg List.sum (List.map_congr_left ?_)
  intro b _
  by_cases hn : b.lease = n <;> simp [hn, Batch.inFlight]

/-- Nothing is counted of a message without a handler. -/
theorem Sound.step_of_unassigned (hs : Sound timely h) {t : Ticket} {r : Run} {text : String}
    (hr : h.run? t = some r) (ha : (h.site t).assigned r.event = .error text)
    (hstep : h.step (.worker t) = some h' ∨ h.step (.strand t) = some h') :
    h'.instrumentation = h.instrumentation ∧ ∀ n, h'.level n = h.level n := by
  have hc : Change timely h h' (.message t) := by
    rcases hstep with hstep | hstep
    · exact hs.change_worker hstep
    · exact change_strand hstep
  cases hc with
  | @message _ b r₁ r₁' os hb hr₁ step _ _ _ shows =>
    obtain rfl : r₁ = r := Option.some.inj (hr₁.symm.trans ((run?_of_batch hb).symm.trans hr))
    rcases step with step | step
    · obtain ⟨hrise, hrecord⟩ := step.uncounted (hs.stage hr) ha
      refine ⟨shows.instrumentation_eq.trans (hrecord _), ?_⟩
      intro n
      simp [shows.level_eq, hrise]
    · obtain ⟨strand, -, hadvances⟩ := step.advances
      exact absurd ((hs.stage hr).of_unassigned ha).1 hadvances.before

/-- If only one lease was ever taken, all handlers are counted by its gate. -/
theorem total_of_leases (hs : Sound timely h) {l : Lease} (hl : h.leases = [l]) (p : Run → Bool) :
    h.total (fun lease => if lease = 0 then 1 else 0) p = h.total (fun _ => 1) p := by
  refine congrArg List.sum (List.map_congr_left ?_)
  intro b hb
  obtain ⟨n, hn⟩ := List.mem_iff_getElem?.mp hb
  have hlease := hasLease_iff.mp (hs.batchLeased n b hn)
  simp only [hl, List.length_singleton, Nat.lt_one_iff] at hlease
  simp [hlease]

/-- The messages of the batches on a lease, up to the last one that counts. -/
theorem total_eq_upTo_add {n : Nat} {b : Batch} (hb : h.batches[n]? = some b)
    (hlast : ∀ m b', h.batches[m]? = some b' → b'.lease = b.lease → m ≤ n) (p : Run → Bool) :
    h.total (fun lease => if lease = b.lease then 1 else 0) p
      = (h.upTo n).total (fun lease => if lease = b.lease then 1 else 0) p + b.runs.countP p := by
  obtain ⟨hn, hget⟩ := List.getElem?_eq_some_iff.mp hb
  have hsplit : h.batches = h.batches.take n ++ b :: h.batches.drop (n + 1) := by
    rw [← hget, ← List.drop_eq_getElem_cons hn, List.take_append_drop]
  have hrest : ((h.batches.drop (n + 1)).map fun b' : Batch =>
      (if b'.lease = b.lease then 1 else 0) * b'.runs.countP p).sum = 0 := by
    apply List.sum_eq_zero_iff_forall_eq_nat.mpr
    intro x hx
    obtain ⟨b', hb', rfl⟩ := List.mem_map.mp hx
    obtain ⟨m, hm⟩ := List.mem_iff_getElem?.mp hb'
    rw [List.getElem?_drop] at hm
    have hlease : b'.lease ≠ b.lease := by
      intro hlease
      have hle := hlast _ b' hm hlease
      omega
    rw [if_neg hlease, Nat.zero_mul]
  rw [total, total, upTo]
  conv_lhs => rw [hsplit]
  rw [List.map_append, List.map_cons, List.sum_append, List.sum_cons, hrest]
  simp

theorem total_eq_zero (weight : Nat → Nat) {p : Run → Bool} (hp : ∀ r ∈ h.runs, p r = false) :
    h.total weight p = 0 := by
  have hzero (b : Batch) (hb : b ∈ h.batches) : weight b.lease * b.runs.countP p = 0 := by
    have hcount : b.runs.countP p = 0 := by
      rw [List.countP_eq_zero]
      intro r hr
      simp [hp r (List.mem_flatMap.mpr ⟨b, hb, hr⟩)]
    rw [hcount, Nat.mul_zero]
  rw [total, List.map_congr_left hzero]
  simp

theorem isInFlight_eq_false {r : Run} (hr : r.strand = .absent ∨ r.strand.hasReturned = true) :
    r.strand.isInFlight = false := by
  cases hs : r.strand <;> simp_all [Strand.isInFlight, Strand.hasReturned]

/-- The level of the gate, the counters and the messages agree at all times, whatever becomes of the
messages: whether their handlers succeed, fail, break off, exceed their timeout or never return. -/
theorem counters_exact (hreach : Reaches timely (.new d (some .zero)) h) :
    (∃ c, h.instrumentation = some c
      ∧ c.current = h.runs.countP (·.strand.isInFlight)
      ∧ c.processed = h.runs.countP (·.strand.hasReturned)
      ∧ c.timeouts = h.runs.countP (·.timedOut)
      ∧ c.faulted = h.faults
      ∧ (∀ l, h.leases = [l] → l.gate.level = c.current)
      ∧ ((∀ r ∈ h.runs, r.strand = .absent ∨ r.strand.hasReturned = true) →
        c.current = 0 ∧ ∀ l ∈ h.leases, l.gate.level = 0))
    ∧ (∀ n, h.level n = h.inFlight.count n)
    ∧ (∀ t r handler, h.run? t = some r → (h.site t).assigned r.event = .ok handler →
      Occurrence.returns (h.deeds (.message t)) =
        if r.strand.hasReturned then [((h.site t).performance r.event handler).2] else [])
    ∧ (∀ t r text, h.run? t = some r → (h.site t).assigned r.event = .error text →
      ∀ h', h.step (.worker t) = some h' ∨ h.step (.strand t) = some h' →
        h'.instrumentation = h.instrumentation ∧ ∀ n, h'.level n = h.level n) := by
  have hs := sound_of_reaches hreach
  obtain ⟨c, hc⟩ := tallied_of_reaches hreach
  refine ⟨⟨c, hc.counters, ?_, ?_, ?_, hc.faulted, ?_, ?_⟩, ?_, ?_, ?_⟩
  · rw [hc.current, total_one]
  · rw [hc.processed, total_one]
  · rw [hc.timeouts, total_one]
  · intro l hl
    have hlevel : h.level 0 = l.gate.level := by simp [level, hl]
    rw [← hlevel, level_eq_total hreach, total_of_leases hs hl, hc.current]
  · intro hreturned
    have hidle (weight : Nat → Nat) : h.total weight (·.strand.isInFlight) = 0 :=
      total_eq_zero weight fun r hr => isInFlight_eq_false (hreturned r hr)
    constructor
    · rw [hc.current, hidle]
      rfl
    · intro l hl
      obtain ⟨n, hn⟩ := List.mem_iff_getElem?.mp hl
      have hlevel : h.level n = l.gate.level := by simp [level, hn]
      rw [← hlevel, level_eq_total hreach, hidle]
      rfl
  · intro n
    rw [level_eq_total hreach, total_lease]
  · intro t r handler hr ha
    exact (hs.life t r hr).returns_eq ha
  · intro t r text hr ha h' hstep
    exact hs.step_of_unassigned hr ha hstep

/-- When the checkpoint of the batch has been asked for, the handler that was too late is still
counted. -/
theorem counters_exact_trial :
    ∃ c, (trialCourse 17).instrumentation = some c ∧ c.current = 1 ∧ c.timeouts = 1 := by
  have hreach : Reaches true (.new trialDispatcher (some .zero)) (trialCourse 17) :=
    reaches_trial.trans ((reaches_accept accept_trial).trans
      (isCourse_trialCourse.reaches (Nat.zero_le 17)))
  obtain ⟨⟨c, hc, hcurrent, -, htimeouts, -⟩, -⟩ := counters_exact hreach
  refine ⟨c, hc, ?_, ?_⟩
  · rw [hcurrent]
    decide +kernel
  · rw [htimeouts]
    decide +kernel

end Host

end StreamDispatch
