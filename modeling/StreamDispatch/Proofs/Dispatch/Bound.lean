import StreamDispatch.Proofs.Dispatch.Lease

set_option autoImplicit false

/-! # How many handlers are in flight

The breaker looks at the level only when it admits a batch, and handlers that exceed their timeout
stay in flight when their batch has long ended. There are never more than a fixed number of them
nevertheless, as long as the batches of a lease arrive one after the other: at any time the handlers
in flight and those that are still to come are fewer than the trip level and one batch together. -/

namespace StreamDispatch

open Occurrence (rise)

/-! ## Handlers still to come -/

/-- Whether nothing has been done yet for the message. -/
def Worker.isReady : Worker → Bool
  | .ready => true
  | _ => false

/-- How many messages of a batch that was admitted may still be given to a handler. -/
def Batch.toCome (b : Batch) : Nat :=
  if b.phase.isAdmitted then b.waiting.length + b.runs.countP (·.worker.isReady) else 0

/-- A message enters the gate once at most. -/
theorem Run.WorkerStep.rise_le {s : Site} {r r' : Run} {os : List Occurrence}
    (h : WorkerStep s r r' os) : rise os + r'.worker.isReady.toNat ≤ r.worker.isReady.toNat := by
  cases h with
  | launched hw | failed _ hw => simp [hw, Occurrence.lift, Worker.isReady]
  | won hw | timedOut hw | joined hw | timeoutReported hw | timeoutLost hw
  | failureReported _ hw | noted hw => simp [hw, Occurrence.lift, Worker.isReady]

theorem Run.StrandStep.rise_le {s : Site} {r r' : Run} {os : List Occurrence}
    (h : StrandStep s r r' os) : rise os ≤ 0 := by
  cases h <;> simp [Occurrence.lift, Occurrence.leaving, Site.call]

namespace Batch

variable {d : Dispatcher} {l : Lease} {now : Nat} {b b' : Batch} {os : List Occurrence}

theorem Step.rise_eq (h : Step d l now b b' os) : rise os = 0 := by
  cases h <;> rfl

theorem toCome_eq_zero (ha : b.phase.isAdmitted = false) : b.toCome = 0 := by
  rw [toCome, ha]
  rfl

theorem toCome_of_admitted (ha : b.phase.isAdmitted = true) :
    b.toCome = b.waiting.length + b.runs.countP (·.worker.isReady) := by
  rw [toCome, if_pos ha]

/-- Nothing is still to come of a batch that has ended. -/
theorem toCome_of_ended (hb : b.Orderly) (he : b.result?.isSome = true) : b.toCome = 0 := by
  cases hd : b.phase.isDone with
  | true =>
    rw [toCome_of_admitted (Phase.isAdmitted_of_done hd), hb.drained (.inr hd), List.length_nil,
      Nat.zero_add, List.countP_eq_zero]
    intro r hr
    rw [hb.joined hd r hr]
    nofun
  | false =>
    unfold result? at he
    split at he
    · next result time hp => exact toCome_eq_zero (Phase.isAdmitted_of_ended hp hd)
    · cases he

/-- All messages of a batch that has just been admitted are still to come. -/
theorem toCome_le_length (b : Batch) : b.toCome ≤ b.events.length := by
  unfold toCome
  split
  · have hle := List.countP_le_length (p := fun r : Run => r.worker.isReady) (l := b.runs)
    rw [events, List.length_append, List.length_map]
    omega
  · exact Nat.zero_le _

/-- No step of a batch brings more messages to come, except that it is admitted. -/
theorem Step.toCome_le (h : Step d l now b b' os)
    (hp : ¬ (b.phase.isPending = true ∧ b'.phase = .filling)) : b'.toCome ≤ b.toCome := by
  cases h with
  | held | refused => exact Nat.zero_le _
  | admitted hpending => exact absurd ⟨hpending, rfl⟩ hp
  | @handedOut e rest hphase hw =>
    have ha : b.phase.isAdmitted = true := by rw [hphase]; rfl
    rw [toCome_of_admitted ha, toCome_of_admitted (by exact ha), hw, List.countP_append,
      List.length_cons]
    show rest.length + (_ + 1) ≤ _
    omega
  | filled hphase =>
    have ha : b.phase.isAdmitted = true := by rw [hphase]; rfl
    rw [toCome_of_admitted ha]
    exact Nat.le_refl _
  | @noted k r _ hphase hr hw =>
    have ha : b.phase.isAdmitted = true := by rw [hphase]; rfl
    have hcount := countP_set_run (fun r => r.worker.isReady) { r with worker := .joined } hr
    simp only [hw, Worker.isReady] at hcount
    rw [toCome_of_admitted ha, toCome_of_admitted (by exact ha)]
    exact Nat.le_of_eq (congrArg _ hcount)
  | finished hphase hjoined =>
    have ha : b.phase.isAdmitted = true := by rw [hphase]; rfl
    have ha' : (Phase.ended (resultOf l.checkpoint) now).isAdmitted = true :=
      Phase.isAdmitted_of_done (Phase.isDone_resultOf ..)
    rw [toCome_of_admitted ha, toCome_of_admitted (by exact ha')]

/-- One message of a batch changes. -/
theorem toCome_set_run (hb : b.Orderly) {k : Nat} {r r' : Run} (hr : b.runs[k]? = some r) :
    ({ b with runs := b.runs.set k r' } : Batch).toCome + r.worker.isReady.toNat
      = b.toCome + r'.worker.isReady.toNat := by
  have ha : b.phase.isAdmitted = true := by
    by_contra ha
    rw [hb.unadmitted (Bool.eq_false_of_not_eq_true ha)] at hr
    cases hr
  have hcount := countP_set_run (fun r => r.worker.isReady) r' hr
  rw [toCome_of_admitted ha, toCome_of_admitted (by exact ha)]
  show b.waiting.length + (b.runs.set k r').countP _ + _ = _
  omega

end Batch

namespace Host

variable {h h' : Host} {timely : Bool} {place : Place} {d : Dispatcher} {i : Instrumentation}
  {lease bound : Nat} {c : Breaker.Config}

/-- How many messages of batches of a lease may still be given to a handler. -/
def toCome (h : Host) (lease : Nat) : Nat :=
  (h.batches.map fun b => if b.lease = lease then b.toCome else 0).sum

theorem toCome_set {n : Nat} {b b' : Batch} (hb : h.batches[n]? = some b)
    (hbatches : h'.batches = h.batches.set n b') (hlease : b'.lease = b.lease) (lease : Nat) :
    h'.toCome lease + (if b.lease = lease then b.toCome else 0)
      = h.toCome lease + (if b.lease = lease then b'.toCome else 0) := by
  have hsum := Batch.sum_map_set (fun b => if b.lease = lease then b.toCome else 0) b' hb
  rw [toCome, toCome, hbatches, hsum, hlease]

/-! ## Batches in turn -/

/-- If a batch arrives on a lease, it has so many events at most, and all batches of the lease that
were there before have ended. -/
def InTurn (lease bound : Nat) (h h' : Host) : Prop :=
  ∀ b' ∈ h'.batches.drop h.batches.length, b'.lease = lease →
    b'.events.length ≤ bound ∧ ∀ b ∈ h.batches, b.lease = lease → b.result?.isSome = true

instance (lease bound : Nat) (h h' : Host) : Decidable (InTurn lease bound h h') :=
  inferInstanceAs (Decidable (∀ _ ∈ _, _))

/-- A host comes to be what another one is, while the batches of a lease arrive in turn. -/
abbrev ReachesInTurn (timely : Bool) (lease bound : Nat) : Host → Host → Prop :=
  Relation.ReflTransGen fun h h' => Moves timely h h' ∧ InTurn lease bound h h'

theorem ReachesInTurn.reaches (hreach : ReachesInTurn timely lease bound h h') :
    Reaches timely h h' := by
  induction hreach with
  | refl => exact .refl
  | tail _ hmoves ih => exact ih.tail hmoves.1

/-- The batches of a lease are small, one of them is under way at most, and the handlers that are in
flight or still to come are no more than the bound allows. -/
structure Bounded (c : Breaker.Config) (lease bound : Nat) (h : Host) : Prop where
  small : ∀ (n : Nat) (b : Batch), h.batches[n]? = some b → b.lease = lease →
    b.events.length ≤ bound
  single : ∀ (n m : Nat) (b b' : Batch), h.batches[n]? = some b → h.batches[m]? = some b' →
    b.lease = lease → b'.lease = lease → b.result?.isSome = false → b'.result?.isSome = false →
    n = m
  load : h.level lease + h.toCome lease ≤ c.tripLevel - 1 + bound

theorem Bounded.new (htrip : 0 < c.tripLevel) : Bounded c lease bound (.new d i) where
  small _ _ := nofun
  single _ _ _ _ := nofun
  load := by
    have hlevel : (Host.new d i).level lease = 0 := rfl
    have hcome : (Host.new d i).toCome lease = 0 := rfl
    rw [hlevel, hcome]
    omega

/-- Of the other batches of a lease nothing is still to come. -/
theorem Bounded.toCome_eq_zero (hbound : Bounded c lease bound h) (hs : Sound timely h) {n : Nat}
    {b : Batch} (hb : h.batches[n]? = some b) (hlease : b.lease = lease)
    (hp : b.phase.isPending = true) : h.toCome lease = 0 := by
  have hnone : b.result?.isSome = false := by
    unfold Batch.result?
    split
    · next hphase => rw [hphase] at hp; cases hp
    · rfl
  refine List.sum_eq_zero_iff_forall_eq_nat.mpr ?_
  intro x hx
  obtain ⟨b', hmem, rfl⟩ := List.mem_map.mp hx
  obtain ⟨m, hm⟩ := List.mem_iff_getElem?.mp hmem
  split
  · next hlease' =>
    cases he : b'.result?.isSome with
    | true => exact Batch.toCome_of_ended (hs.orderly m b' hm) he
    | false =>
      obtain rfl := hbound.single n m b b' hb hm hlease hlease' hnone he
      obtain rfl := Option.some.inj (hb.symm.trans hm)
      exact Batch.toCome_eq_zero (Batch.Phase.isAdmitted_of_pending hp)
  · rfl

/-! ## One change -/

/-- What arrives is still to be admitted, and small. -/
theorem Bounded.accepted (hbound : Bounded c lease bound h) {lease' : Nat} {events : List Event}
    {cancelled : Bool}
    (heq : h' = { h with batches := h.batches ++ [Batch.new lease' events cancelled] })
    (hturn : InTurn lease bound h h') : Bounded c lease bound h' := by
  subst heq
  have hnew := hturn (Batch.new lease' events cancelled) (by simp)
  -- A batch of the new host is one of the old ones, or the one that has arrived.
  have hcases {n : Nat} {b : Batch}
      (hb : (h.batches ++ [Batch.new lease' events cancelled])[n]? = some b) :
      h.batches[n]? = some b
        ∨ n = h.batches.length ∧ b = Batch.new lease' events cancelled := by
    rcases Nat.lt_or_ge n h.batches.length with hlt | hge
    · rw [List.getElem?_append_left hlt] at hb
      exact .inl hb
    · rw [List.getElem?_append_right hge] at hb
      obtain ⟨hlt, hb⟩ := List.getElem?_eq_some_iff.mp hb
      rw [List.length_singleton] at hlt
      exact .inr ⟨by omega, by simpa using hb.symm⟩
  refine ⟨?_, ?_, ?_⟩
  · intro n b hb hlease
    rcases hcases hb with hb | ⟨-, rfl⟩
    · exact hbound.small n b hb hlease
    · exact (hnew hlease).1
  · intro n m b b' hb hb' hlease hlease' hnone hnone'
    rcases hcases hb with hb | ⟨rfl, rfl⟩ <;> rcases hcases hb' with hb' | ⟨rfl, rfl⟩
    · exact hbound.single n m b b' hb hb' hlease hlease' hnone hnone'
    · have hended := (hnew hlease').2 b (List.mem_of_getElem? hb) hlease
      simp [hnone] at hended
    · have hended := (hnew hlease).2 b' (List.mem_of_getElem? hb') hlease'
      simp [hnone'] at hended
    · rfl
  · have hcome : ({ h with batches := h.batches ++ [Batch.new lease' events cancelled] } :
        Host).toCome lease = h.toCome lease := by
      have hzero : (Batch.new lease' events cancelled).toCome = 0 := Batch.toCome_eq_zero rfl
      rw [toCome, List.map_append, List.sum_append, List.map_singleton, List.sum_singleton, hzero,
        ite_self, Nat.add_zero]
      rfl
    rw [hcome]
    exact hbound.load

/-- A change of one batch keeps the bound if it leaves no more handlers in flight or to come. -/
theorem Bounded.set (hbound : Bounded c lease bound h) {n : Nat} {b b' : Batch}
    (hb : h.batches[n]? = some b) (hbatches : h'.batches = h.batches.set n b')
    (hevents : b'.events = b.events) (hlease : b'.lease = b.lease)
    (hended : b.result?.isSome = true → b'.result?.isSome = true)
    (hload : h'.level lease + h'.toCome lease ≤ c.tripLevel - 1 + bound) :
    Bounded c lease bound h' := by
  obtain ⟨hlt, -⟩ := List.getElem?_eq_some_iff.mp hb
  -- A batch of the new host stands in for the one of the same number.
  have hcases {m : Nat} {b₁ : Batch} (hb₁ : h'.batches[m]? = some b₁) :
      ∃ b₀, h.batches[m]? = some b₀ ∧ b₁.lease = b₀.lease ∧ b₁.events = b₀.events
        ∧ (b₁.result?.isSome = false → b₀.result?.isSome = false) := by
    rw [hbatches, List.getElem?_set] at hb₁
    split at hb₁
    · next hm =>
      obtain rfl : b' = b₁ := by simpa [← hm, hlt] using hb₁
      refine ⟨b, hm ▸ hb, hlease, hevents, ?_⟩
      intro hnone
      by_contra hsome
      rw [hended (Bool.eq_true_of_not_eq_false hsome)] at hnone
      cases hnone
    · exact ⟨b₁, hb₁, rfl, rfl, id⟩
  refine ⟨?_, ?_, hload⟩
  · intro m b₁ hb₁ hlease₁
    obtain ⟨b₀, hb₀, hl, he, -⟩ := hcases hb₁
    rw [he]
    exact hbound.small m b₀ hb₀ (hl ▸ hlease₁)
  · intro m m' b₁ b₂ hb₁ hb₂ hl₁ hl₂ hnone₁ hnone₂
    obtain ⟨b₀, hb₀, hl, -, hn⟩ := hcases hb₁
    obtain ⟨b₀', hb₀', hl', -, hn'⟩ := hcases hb₂
    exact hbound.single m m' b₀ b₀' hb₀ hb₀' (hl ▸ hl₁) (hl' ▸ hl₂) (hn hnone₁) (hn' hnone₂)

/-- A batch is admitted only below the trip level, and then no other batch has handlers to come. -/
theorem Bounded.batch (hbound : Bounded c lease bound h) (hs : Sound timely h) {n : Nat}
    {b b' : Batch} {l : Lease} {os : List Occurrence} (hb : h.batches[n]? = some b)
    (step : Batch.Step h.dispatcher l h.now b b' os) (hbatches : h'.batches = h.batches.set n b')
    (hlevel : ∀ m, h'.level m = h.level m + if m = b.lease then rise os else 0)
    (hadmitted : b.phase.isPending = true → b'.phase = .filling →
      h.level b.lease < c.tripLevel) : Bounded c lease bound h' := by
  have hended : b.result?.isSome = true → b'.result?.isSome = true := by
    intro hsome
    cases step with
    | held hp | admitted hp =>
      cases hphase : b.phase <;> simp [hphase, Batch.result?, Batch.Phase.isPending] at hsome hp
    | refused | finished => rfl
    | handedOut hp | filled hp | noted hp => simp [Batch.result?, hp] at hsome
  refine hbound.set hb hbatches (Batch.Change.step step).events_eq step.lease_eq hended ?_
  have hload := hbound.load
  have hset := toCome_set hb hbatches step.lease_eq lease
  rw [hlevel lease, step.rise_eq, ite_self, add_zero]
  by_cases hlease : b.lease = lease
  · rw [if_pos hlease, if_pos hlease] at hset
    by_cases hpass : b.phase.isPending = true ∧ b'.phase = .filling
    · -- All of the batch is to come, and nothing else; its events are no more than the bound.
      obtain ⟨hp, hphase⟩ := hpass
      have hlt := hadmitted hp hphase
      have hzero := hbound.toCome_eq_zero hs hb hlease hp
      have hnone := Batch.toCome_eq_zero (Batch.Phase.isAdmitted_of_pending hp)
      have hall := b'.toCome_le_length
      have hsmall := hbound.small n b hb hlease
      rw [(Batch.Change.step step).events_eq] at hall
      rw [hlease] at hlt
      omega
    · have hle := step.toCome_le hpass
      omega
  · rw [if_neg hlease, if_neg hlease] at hset
    omega

/-- A message that enters the gate is no longer to come. -/
theorem Bounded.message (hbound : Bounded c lease bound h) (hs : Sound timely h) {t : Ticket}
    {b : Batch} {r r' : Run} {os : List Occurrence} (hb : h.batches[t.batch]? = some b)
    (hr : b.runs[t.index]? = some r)
    (step : Run.WorkerStep (h.site t) r r' os ∨ Run.StrandStep (h.site t) r r' os)
    (hbatches : h'.batches = h.batches.set t.batch { b with runs := b.runs.set t.index r' })
    (hlevel : ∀ m, h'.level m = h.level m + if m = b.lease then rise os else 0) :
    Bounded c lease bound h' := by
  have hevents : r'.event = r.event := by
    rcases step with step | step
    · exact step.event_eq
    · obtain ⟨strand, rfl, -⟩ := step.advances
      rfl
  have hrise : rise os + r'.worker.isReady.toNat ≤ r.worker.isReady.toNat := by
    rcases step with step | step
    · exact step.rise_le
    · have hle := step.rise_le
      obtain ⟨strand, rfl, -⟩ := step.advances
      show rise os + r.worker.isReady.toNat ≤ _
      omega
  have hevents : ({ b with runs := b.runs.set t.index r' } : Batch).events = b.events := by
    rw [Batch.events, Batch.events, Batch.map_set_run hr hevents]
  refine hbound.set hb hbatches hevents rfl id ?_
  have hload := hbound.load
  have hset := toCome_set hb hbatches rfl lease
  have hrun : ({ b with runs := b.runs.set t.index r' } : Batch).toCome + r.worker.isReady.toNat
      = b.toCome + r'.worker.isReady.toNat :=
    Batch.toCome_set_run (hs.orderly _ b hb) hr
  rw [hlevel lease]
  by_cases hlease : b.lease = lease
  · rw [if_pos hlease, if_pos hlease] at hset
    rw [if_pos hlease.symm]
    omega
  · rw [if_neg hlease, if_neg hlease] at hset
    rw [if_neg (Ne.symm hlease)]
    omega

theorem Bounded.change (hbound : Bounded c lease bound h) (hs : Sound timely h)
    (hc : Change timely h h' place) (hturn : InTurn lease bound h h')
    (hadmitted : ∀ (n : Nat) (b b' : Batch), place = .batch n → h.batches[n]? = some b →
      h'.batches[n]? = some b' → b.phase.isPending = true → b'.phase = .filling →
      h.level b.lease < c.tripLevel) : Bounded c lease bound h' := by
  have hkept (hbatches : h'.batches = h.batches) (hlevel : h'.level lease = h.level lease) :
      Bounded c lease bound h' := by
    refine ⟨hbatches ▸ hbound.small, hbatches ▸ hbound.single, ?_⟩
    rw [toCome, hbatches, hlevel]
    exact hbound.load
  cases hc with
  | tick _ heq =>
    subst heq
    exact hkept rfl rfl
  | aside ha =>
    refine hkept ha.batches_eq ?_
    rw [ha.quiet.level_eq, rise_nil, ite_self, add_zero]
  | accepted _ heq => exact hbound.accepted heq hturn
  | @cancelled n b hb _ heq =>
    have hbatches : h'.batches = h.batches.set n { b with cancelled := true } := heq ▸ rfl
    have hset := toCome_set hb hbatches rfl lease
    refine hbound.set hb hbatches rfl rfl id ?_
    have hlevel : h'.level lease = h.level lease := heq ▸ rfl
    rw [hlevel, Nat.add_right_cancel hset]
    exact hbound.load
  | @batch n b b' l os hb step hbatches _ _ shows =>
    refine hbound.batch hs hb step hbatches shows.level_eq ?_
    obtain ⟨hlt, -⟩ := List.getElem?_eq_some_iff.mp hb
    exact hadmitted n b b' rfl hb (by rw [hbatches, List.getElem?_set_self hlt])
  | message hb hr step hbatches _ _ shows =>
    exact hbound.message hs hb hr step hbatches shows.level_eq

/-- The gate of a lease admits a batch only below its trip level. -/
theorem Tenured.level_lt_of_stepBatch (ht : Tenured h) (hd : h.dispatcher.admission = .guarded c)
    (hlevels : c.warningLevel < c.tripLevel) {n : Nat} {b b' : Batch}
    (hstep : h.stepBatch n = some h') (hb : h.batches[n]? = some b)
    (hb' : h'.batches[n]? = some b') (hp : b.phase.isPending = true) (hp' : b'.phase = .filling) :
    h.level b.lease < c.tripLevel := by
  obtain ⟨b₁, l, b₂, gate, os, hb₁, hl, hbatch, rfl⟩ := stepBatch_eq_some hstep
  obtain rfl := Option.some.inj (hb₁.symm.trans hb)
  obtain ⟨hlt, -⟩ := List.getElem?_eq_some_iff.mp hb
  obtain rfl : b₂ = b' := Option.some.inj ((List.getElem?_set_self hlt).symm.trans hb')
  have hlevel : h.level b₁.lease = l.gate.level := by simp [level, hl]
  have hgate : l.gate.admission = .guarded c := (ht.admission _ l hl).trans hd
  rw [hlevel]
  exact Batch.level_lt_of_admitted hgate hlevels hp hp' hbatch

/-! ## All runs -/

theorem bounded_of_reaches (hd : d.admission = .guarded c) (htrip : 0 < c.tripLevel)
    (hlevels : c.warningLevel < c.tripLevel)
    (hreach : ReachesInTurn timely lease bound (.new d i) h) : Bounded c lease bound h := by
  induction hreach with
  | refl => exact .new htrip
  | @tail h h' hreach hmoves ih =>
    have hreach : Reaches timely (.new d i) h := ReachesInTurn.reaches hreach
    have hs := sound_of_reaches hreach
    have ht := tenured_of_reaches hreach
    have hd' : h.dispatcher.admission = .guarded c := by
      rw [dispatcher_of_reaches hreach]
      exact hd
    obtain ⟨place, hc, hplace⟩ := hs.change_place hmoves.1
    refine ih.change hs hc hmoves.2 ?_
    intro n b b' hn hb hb' hp hp'
    exact ht.level_lt_of_stepBatch hd' hlevels (hplace n hn) hb hb' hp hp'

/-- However many batches are delivered for a lease one after the other, the handlers of the lease
that are in flight are fewer than the trip level and one batch together, whatever becomes of the
handlers and of the batches. -/
theorem level_bounded (hd : d.admission = .guarded c) (hwarning : 0 < c.warningLevel)
    (hlevels : c.warningLevel < c.tripLevel)
    (hreach : ReachesInTurn timely lease bound (.new d i) h) :
    0 ≤ h.level lease ∧ h.level lease ≤ c.tripLevel - 1 + bound
      ∧ h.level lease = h.inFlight.count lease := by
  have hbound := bounded_of_reaches hd (by omega) hlevels hreach
  have hcount := level_eq_count (ReachesInTurn.reaches hreach) lease
  have hload := hbound.load
  refine ⟨?_, ?_, hcount⟩
  · omega
  · omega

theorem reachesInTurn_led {acts : List Act} {n : Nat}
    (hturn : ∀ k < n, InTurn lease bound (h.led acts k) (h.led acts (k + 1))) :
    ReachesInTurn true lease bound h (h.led acts n) := by
  induction n with
  | zero => exact .refl
  | succ n ih =>
    have hreach := ih fun k hk => hturn k (Nat.lt_succ_of_lt hk)
    rcases isCourse_led h acts n with heq | hmoves
    · rwa [heq]
    · exact hreach.tail ⟨hmoves, hturn n (Nat.lt_succ_self n)⟩

/-- The dispatcher with a breaker that trips at two handlers. -/
def guardedDispatcher : Dispatcher :=
  { trialDispatcher with admission := .guarded ⟨1, 2, .ofMillis 1, .ofMillis 0⟩ }

/-- A second batch is delivered, and its two handlers enter the gate, while a handler of the first
batch is still at work. -/
def crowdedActs : List Act :=
  let batch := Act.step (.batch 1)
  let worker (n : Nat) := Act.step (.worker ⟨1, n⟩)
  .openPartition "0" (.ok ()) :: .accept "0" (some trialEvents) false :: trialActs.take 17
    ++ [.accept "0" (some trialEvents) false, batch, batch, batch, worker 0, worker 1]

def crowdedCourse : Nat → Host := (Host.new guardedDispatcher none).led crowdedActs

/-- The bound is reached. -/
theorem level_bounded_trial : (crowdedCourse 25).level 0 = 2 - 1 + 2
    ∧ (crowdedCourse 25).level 0 ≤ 2 - 1 + 2 := by
  have hturn : ∀ k < 25, InTurn 0 2 (crowdedCourse k) (crowdedCourse (k + 1)) := by
    decide +kernel
  have hreach := reachesInTurn_led hturn
  have hd : guardedDispatcher.admission = .guarded ⟨1, 2, .ofMillis 1, .ofMillis 0⟩ := rfl
  have hwarning : (0 : Int) < 1 := by decide
  have hlevels : (1 : Int) < 2 := by decide
  obtain ⟨-, hle, hcount⟩ := level_bounded hd hwarning hlevels hreach
  refine ⟨?_, hle⟩
  rw [crowdedCourse, hcount]
  decide +kernel

end Host

end StreamDispatch
