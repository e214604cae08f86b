import StreamDispatch.Proofs.Dispatch.Checkpoint
import StreamDispatch.Proofs.Dispatch.Gate

set_option autoImplicit false

/-! # Leases keep to themselves

A batch belongs to the lease that owned its partition when it arrived, whatever becomes of the
partition later. What its tasks do, they do to this lease alone: another lease, be it an earlier or
a later one of the same partition, has a level and a number of checkpoints of its own, which follow
from its own batches. -/

namespace StreamDispatch

/-! ## What is recorded of a lease -/

theorem Lease.admission_record (l : Lease) (os : List Occurrence) :
    (os.foldl Lease.record l).gate.admission = l.gate.admission := by
  induction os generalizing l with
  | nil => rfl
  | cons o os ih =>
    rw [List.foldl_cons, ih]
    cases o <;> simp [Lease.record]

theorem Lease.checkpoints_record (l : Lease) (os : List Occurrence) :
    (os.foldl Lease.record l).checkpoints
      = l.checkpoints + (Occurrence.deeds os).count .checkpointed := by
  induction os generalizing l with
  | nil => rfl
  | cons o os ih =>
    rw [List.foldl_cons, ih, deeds_cons]
    cases o <;> simp [Lease.record, Occurrence.isLogged, Nat.add_assoc, Nat.add_comm]

/-- A batch asks for a checkpoint when it is done, and at no other time. -/
theorem Batch.Step.checkpoints_eq {d : Dispatcher} {l : Lease} {now : Nat} {b b' : Batch}
    {os : List Occurrence} (h : Step d l now b b' os) :
    b.phase.isDone.toNat + os.count .checkpointed = b'.phase.isDone.toNat := by
  cases h with
  | held hp | admitted hp | refused hp =>
    rw [isDone_of_pending hp]
    rfl
  | handedOut hp | filled hp => simp [hp, Phase.isDone]
  | noted hp => simp
  | finished hp =>
    have hdone : b.phase.isDone = false := by simp [hp, Phase.isDone]
    rw [hdone, Phase.isDone_resultOf]
    rfl

theorem Run.WorkerStep.checkpoints_eq {s : Site} {r r' : Run} {os : List Occurrence}
    (h : WorkerStep s r r' os) : os.count .checkpointed = 0 := by
  cases h <;> simp

theorem Run.StrandStep.checkpoints_eq {s : Site} {r r' : Run} {os : List Occurrence}
    (h : StrandStep s r r' os) : os.count .checkpointed = 0 := by
  cases h <;> simp [Site.call, Occurrence.leaving]

/-! ## Tasks and their leases -/

/-- The number of the batch for which a task works. -/
def Task.number : Task → Nat
  | .batch n => n
  | .worker t => t.batch
  | .strand t => t.batch
  | .canceller n => n

namespace Host

variable {h h' h₁ : Host} {timely : Bool} {d : Dispatcher} {i : Instrumentation} {σ : Nat → Host}
  {partition : String} {events : Option (List Event)} {cancelled : Bool}

/-- What a step of a task does: it changes one batch and the lease of this batch. -/
structure Serves (h h' : Host) (n : Nat) (b b' : Batch) (l l' : Lease) : Prop where
  batch : h.batches[n]? = some b
  lease : h.leases[b.lease]? = some l
  batches_eq : h'.batches = h.batches.set n b'
  leases_eq : h'.leases = h.leases.set b.lease l'
  owned_eq : h'.owned = h.owned
  dispatcher_eq : h'.dispatcher = h.dispatcher
  lease_eq : b'.lease = b.lease
  partition_eq : l'.partition = l.partition
  admission_eq : l'.gate.admission = l.gate.admission
  checkpoints_eq : l'.checkpoints + b.phase.isDone.toNat = l.checkpoints + b'.phase.isDone.toNat

theorem serves_stepBatch {n : Nat} (hstep : h.stepBatch n = some h') :
    ∃ b b' l l', Serves h h' n b b' l l' := by
  obtain ⟨b, l, b', gate, os, hb, hl, hbatch, rfl⟩ := stepBatch_eq_some hstep
  obtain ⟨step, -⟩ := Batch.step_step hbatch
  obtain ⟨hlt, -⟩ := List.getElem?_eq_some_iff.mp hl
  refine ⟨b, b', l, os.foldl Lease.record { l with gate }, ?_⟩
  exact {
    batch := hb
    lease := hl
    batches_eq := rfl
    leases_eq := by
      rw [record, List.modify_eq_set_getElem?, List.getElem?_set_self hlt]
      exact List.set_set ..
    owned_eq := rfl
    dispatcher_eq := rfl
    lease_eq := step.lease_eq
    partition_eq := Lease.partition_record ..
    admission_eq := by rw [Lease.admission_record, Batch.admission_of_step hbatch]
    checkpoints_eq := by
      have hcount := step.checkpoints_eq
      rw [Lease.checkpoints_record, ← hcount, Nat.add_comm b.phase.isDone.toNat, Nat.add_assoc] }

theorem serves_stepRun {t : Ticket} {step : Site → Run → Option (Run × List Occurrence)}
    (hcount : ∀ r r' os, h.run? t = some r → step (h.site t) r = some (r', os) →
      (Occurrence.deeds os).count .checkpointed = 0)
    (hstep : h.stepRun t step = some h') : ∃ b b' l l', Serves h h' t.batch b b' l l' := by
  obtain ⟨b, l, r, r', os, hb, hl, hr, hrun, rfl⟩ := stepRun_eq_some hstep
  have hnone := hcount r r' os (run?_eq_some.mpr ⟨b, hb, hr⟩) hrun
  refine ⟨b, { b with runs := b.runs.set t.index r' }, l, os.foldl Lease.record l, ?_⟩
  exact {
    batch := hb
    lease := hl
    batches_eq := rfl
    leases_eq := by
      rw [record, List.modify_eq_set_getElem?, hl]
      rfl
    owned_eq := rfl
    dispatcher_eq := rfl
    lease_eq := rfl
    partition_eq := Lease.partition_record ..
    admission_eq := Lease.admission_record ..
    checkpoints_eq := by rw [Lease.checkpoints_record, hnone, Nat.add_zero] }

/-- A batch that is cancelled leaves its lease as it is. -/
theorem Sound.serves_cancel (hs : Sound timely h) {n : Nat} (hstep : h.cancel? n = some h') :
    ∃ b b' l l', Serves h h' n b b' l l' := by
  obtain ⟨b, hb, -, rfl⟩ := cancel?_eq_some hstep
  obtain ⟨l, hl⟩ := hs.exists_lease hb
  obtain ⟨hlt, rfl⟩ := List.getElem?_eq_some_iff.mp hl
  exact ⟨b, _, _, _, hb, hl, rfl, (List.set_getElem_self hlt).symm, rfl, rfl, rfl, rfl, rfl, rfl⟩

/-- Whatever a task does is done to its batch and to the lease of its batch. -/
theorem Sound.serves (hs : Sound timely h) {task : Task} (hstep : h.step task = some h') :
    ∃ b b' l l', Serves h h' task.number b b' l l' := by
  cases task with
  | batch n => exact serves_stepBatch hstep
  | worker t =>
    refine serves_stepRun ?_ hstep
    intro r r' os hr hrun
    exact ((hs.stage hr).step_worker hrun).checkpoints_eq
  | strand t =>
    refine serves_stepRun ?_ hstep
    intro r r' os _ hrun
    exact (Run.step_strand hrun).checkpoints_eq
  | canceller n => exact hs.serves_cancel hstep

namespace Serves

variable {n : Nat} {b b' : Batch} {l l' : Lease}

/-- Every other lease stays as it is. -/
theorem lease_of_ne (hv : Serves h h' n b b' l l') {m : Nat} (hm : m ≠ b.lease) :
    h'.leases[m]? = h.leases[m]? := by
  rw [hv.leases_eq, List.getElem?_set_ne (Ne.symm hm)]

theorem lease_self (hv : Serves h h' n b b' l l') : h'.leases[b.lease]? = some l' := by
  obtain ⟨hlt, -⟩ := List.getElem?_eq_some_iff.mp hv.lease
  rw [hv.leases_eq, List.getElem?_set_self hlt]

theorem partitions_eq (hv : Serves h h' n b b' l l') : h'.partitions = h.partitions := by
  apply List.ext_getElem?
  intro m
  rw [Host.partitions, Host.partitions, List.getElem?_map, List.getElem?_map]
  by_cases hm : m = b.lease
  · rw [hm, hv.lease_self, hv.lease, Option.map_some, Option.map_some, hv.partition_eq]
  · rw [hv.lease_of_ne hm]

end Serves

/-! ## What is not a step of a task -/

/-- No task has taken a step: batches may have arrived, leases may have been taken, and other
checkpoints may come of those that are there. -/
structure Idles (h h' : Host) : Prop where
  batches : ∃ arrived, h'.batches = h.batches ++ arrived ∧ ∀ b ∈ arrived, b.phase = .arriving
  kept : ∀ (m : Nat) (l : Lease), h.leases[m]? = some l → ∃ l', h'.leases[m]? = some l'
    ∧ l'.partition = l.partition ∧ l'.gate = l.gate ∧ l'.checkpoints = l.checkpoints
  taken : ∀ (m : Nat) (l' : Lease), h.leases[m]? = none → h'.leases[m]? = some l' →
    l'.gate = Gate.new l'.partition h.dispatcher.admission ∧ l'.checkpoints = 0
  dispatcher_eq : h'.dispatcher = h.dispatcher

/-- Nothing has been done to a lease. -/
theorem idles_of_leases_eq {arrived : List Batch} (hbatches : h'.batches = h.batches ++ arrived)
    (harrived : ∀ b ∈ arrived, b.phase = .arriving) (hleases : h'.leases = h.leases)
    (hd : h'.dispatcher = h.dispatcher) : Idles h h' where
  batches := ⟨arrived, hbatches, harrived⟩
  kept m l hl := ⟨l, hleases ▸ hl, rfl, rfl, rfl⟩
  taken m l' hl hl' := by
    rw [hleases, hl] at hl'
    cases hl'
  dispatcher_eq := hd

theorem idles_openPartition (h : Host) (partition : String)
    (checkpoint : Except CheckpointError Unit) :
    Idles h (h.openPartition partition checkpoint) where
  batches := ⟨[], (List.append_nil _).symm, nofun⟩
  kept m l hl := by
    obtain ⟨hlt, -⟩ := List.getElem?_eq_some_iff.mp hl
    exact ⟨l, (List.getElem?_append_left hlt).trans hl, rfl, rfl, rfl⟩
  taken m l' hl hl' := by
    have hle : h.leases.length ≤ m := List.getElem?_eq_none_iff.mp hl
    have hlast := (List.getElem?_append_right hle).symm.trans hl'
    obtain rfl := List.mem_singleton.mp (List.mem_of_getElem? hlast)
    exact ⟨rfl, rfl⟩
  dispatcher_eq := rfl

theorem idles_setCheckpoint (h : Host) (partition : String)
    (checkpoint : Except CheckpointError Unit) :
    Idles h (h.setCheckpoint partition checkpoint) := by
  have hbatches : h.batches = h.batches ++ [] := (List.append_nil _).symm
  unfold setCheckpoint
  split
  · exact idles_of_leases_eq hbatches nofun rfl rfl
  · refine ⟨⟨[], hbatches, nofun⟩, ?_, ?_, rfl⟩
    · intro m l hl
      rw [List.getElem?_modify, hl]
      split
      · exact ⟨_, rfl, rfl, rfl, rfl⟩
      · exact ⟨_, rfl, rfl, rfl, rfl⟩
    · intro m l' hl hl'
      simp [List.getElem?_modify, hl] at hl'

/-- What comes of checkpoints has nothing to do with who owns a partition. -/
theorem setCheckpoint_eq (h : Host) (partition : String)
    (checkpoint : Except CheckpointError Unit) :
    (h.setCheckpoint partition checkpoint).partitions = h.partitions
      ∧ (h.setCheckpoint partition checkpoint).owned = h.owned := by
  unfold setCheckpoint
  split
  · exact ⟨rfl, rfl⟩
  · refine ⟨?_, rfl⟩
    apply List.ext_getElem?
    intro m
    simp only [Host.partitions, List.getElem?_map, List.getElem?_modify]
    cases h.leases[m]? with
    | none => rfl
    | some l => split <;> rfl

/-- To release partitions is nothing that is done to a lease. -/
theorem closePartition_eq (h : Host) (partition : String) (reason : CloseReason) :
    (h.closePartition partition reason).1.batches = h.batches
      ∧ (h.closePartition partition reason).1.leases = h.leases
      ∧ (h.closePartition partition reason).1.dispatcher = h.dispatcher
      ∧ ∀ p n, (h.closePartition partition reason).1.owned.get? p = some n →
        h.owned.get? p = some n := by
  unfold closePartition
  split
  · refine ⟨rfl, rfl, rfl, ?_⟩
    intro p n hn
    simp only [Dictionary.get?_erase] at hn
    split at hn
    · cases hn
    · exact hn
  · exact ⟨rfl, rfl, rfl, fun _ _ hn => hn⟩

theorem shutdown_eq (h : Host) :
    h.shutdown.batches = h.batches ∧ h.shutdown.leases = h.leases
      ∧ h.shutdown.dispatcher = h.dispatcher
      ∧ ∀ p n, h.shutdown.owned.get? p = some n → h.owned.get? p = some n := by
  have hfold (partitions : List String) (h : Host) :
      let h' := partitions.foldl
        (fun h partition => (h.closePartition partition .shutdown).1) h
      h'.batches = h.batches ∧ h'.leases = h.leases ∧ h'.dispatcher = h.dispatcher
        ∧ ∀ p n, h'.owned.get? p = some n → h.owned.get? p = some n := by
    induction partitions generalizing h with
    | nil => exact ⟨rfl, rfl, rfl, fun _ _ => id⟩
    | cons partition rest ih =>
      obtain ⟨hbatches, hleases, hd, howned⟩ := h.closePartition_eq partition .shutdown
      obtain ⟨hbatches', hleases', hd', howned'⟩ := ih (h.closePartition partition .shutdown).1
      exact ⟨hbatches'.trans hbatches, hleases'.trans hleases, hd'.trans hd,
        fun p n hn => howned p n (howned' p n hn)⟩
  exact hfold h.ownedPartitions _

/-- An act that is no step of a task leaves the levels and the numbers of checkpoints alone. -/
theorem idles_of_act {a : Act} (ha : ∀ task, a ≠ .step task) (hact : h.act a = some h') :
    Idles h h' := by
  have hbatches : h.batches = h.batches ++ [] := (List.append_nil _).symm
  cases a with
  | step task => exact absurd rfl (ha task)
  | tick =>
    cases hact
    exact idles_of_leases_eq hbatches nofun rfl rfl
  | openPartition partition checkpoint =>
    cases hact
    exact idles_openPartition h partition checkpoint
  | setCheckpoint partition checkpoint =>
    cases hact
    exact idles_setCheckpoint h partition checkpoint
  | closePartition partition reason =>
    cases hact
    obtain ⟨hb, hl, hd, -⟩ := h.closePartition_eq partition reason
    exact idles_of_leases_eq (hb.trans hbatches) nofun hl hd
  | shutdown =>
    cases hact
    obtain ⟨hb, hl, hd, -⟩ := h.shutdown_eq
    exact idles_of_leases_eq (hb.trans hbatches) nofun hl hd
  | accept partition events cancelled =>
    rw [act, accept] at hact
    split at hact
    · cases hact
    · cases hact
      refine idles_of_leases_eq rfl ?_ rfl rfl
      intro b hb
      rw [List.mem_singleton.mp hb]
      rfl

/-! ## Tenure -/

/-- How many batches of a lease are done. -/
def done (h : Host) (lease : Nat) : Nat :=
  h.batches.countP fun b => b.lease == lease && b.phase.isDone

theorem Idles.done_eq (hi : Idles h h') (lease : Nat) : h'.done lease = h.done lease := by
  obtain ⟨arrived, hbatches, harrived⟩ := hi.batches
  have hnone : arrived.countP (fun b => b.lease == lease && b.phase.isDone) = 0 := by
    rw [List.countP_eq_zero]
    intro b hb
    simp [harrived b hb, Batch.Phase.isDone]
  rw [done, hbatches, List.countP_append, hnone]
  rfl

/-- A lease that was not taken has no batches. -/
theorem Sound.done_eq_zero (hs : Sound timely h) {lease : Nat} (hl : h.leases[lease]? = none) :
    h.done lease = 0 := by
  rw [done, List.countP_eq_zero]
  intro b hb
  obtain ⟨n, hn⟩ := List.mem_iff_getElem?.mp hb
  have hlt := hasLease_iff.mp (hs.batchLeased n b hn)
  have hle := List.getElem?_eq_none_iff.mp hl
  have hne : b.lease ≠ lease := by omega
  simp [hne]

theorem Serves.done_eq {n : Nat} {b b' : Batch} {l l' : Lease} (hv : Serves h h' n b b' l l')
    (lease : Nat) : h'.done lease + (b.lease == lease && b.phase.isDone).toNat
      = h.done lease + (b.lease == lease && b'.phase.isDone).toNat := by
  rw [done, done, countP_eq_sum, countP_eq_sum, hv.batches_eq]
  have hsum := Batch.sum_map_set (fun b => (b.lease == lease && b.phase.isDone).toNat) b' hv.batch
  rwa [hv.lease_eq] at hsum

/-- The leases are what the partitions and the batches say. -/
structure Tenured (h : Host) : Prop where
  /-- A partition is owned by the last lease that was taken of it. -/
  owner : ∀ p m, h.owned.get? p = some m →
    h.partitions[m]? = some p ∧ ∀ m', m < m' → h.partitions[m']? ≠ some p
  admission : ∀ (m : Nat) (l : Lease), h.leases[m]? = some l →
    l.gate.admission = h.dispatcher.admission
  checkpoints : ∀ (m : Nat) (l : Lease), h.leases[m]? = some l → l.checkpoints = h.done m

theorem Tenured.new (d : Dispatcher) (i : Instrumentation) : Tenured (.new d i) where
  owner _ _ := nofun
  admission _ _ := nofun
  checkpoints _ _ := nofun

theorem Tenured.serves (ht : Tenured h) {n : Nat} {b b' : Batch} {l l' : Lease}
    (hv : Serves h h' n b b' l l') : Tenured h' where
  owner p m hm := by
    rw [hv.partitions_eq]
    rw [hv.owned_eq] at hm
    exact ht.owner p m hm
  admission m l₁ hl₁ := by
    rw [hv.dispatcher_eq]
    by_cases hm : m = b.lease
    · rw [hm, hv.lease_self] at hl₁
      rw [← Option.some.inj hl₁, hv.admission_eq]
      exact ht.admission _ l hv.lease
    · rw [hv.lease_of_ne hm] at hl₁
      exact ht.admission m l₁ hl₁
  checkpoints m l₁ hl₁ := by
    have hdone := hv.done_eq m
    by_cases hm : m = b.lease
    · rw [hm, hv.lease_self] at hl₁
      obtain rfl := Option.some.inj hl₁
      have hbefore := ht.checkpoints _ l hv.lease
      have hcheckpoints := hv.checkpoints_eq
      simp only [hm, beq_self_eq_true, Bool.true_and] at hdone ⊢
      omega
    · rw [hv.lease_of_ne hm] at hl₁
      have hne : (b.lease == m) = false := beq_false_of_ne (Ne.symm hm)
      simp only [hne, Bool.false_and] at hdone
      rw [ht.checkpoints m l₁ hl₁]
      exact (Nat.add_right_cancel hdone).symm

/-- An owner gives up its partition to the next lease that is taken of it. -/
theorem Tenured.owner_openPartition (ht : Tenured h) (partition : String)
    (checkpoint : Except CheckpointError Unit) (p : String) (m : Nat)
    (hm : (h.openPartition partition checkpoint).owned.get? p = some m) :
    (h.openPartition partition checkpoint).partitions[m]? = some p
      ∧ ∀ m', m < m' → (h.openPartition partition checkpoint).partitions[m']? ≠ some p := by
  have hpartitions : (h.openPartition partition checkpoint).partitions
      = h.partitions ++ [partition] := List.map_append
  have hlength : h.partitions.length = h.leases.length := List.length_map _
  rw [hpartitions]
  simp only [openPartition, Dictionary.get?_insert] at hm
  split at hm
  · next hp =>
    cases hm
    constructor
    · rw [← hlength, List.getElem?_concat_length, hp]
    · intro m' hm'
      rw [List.getElem?_eq_none (by simp; omega)]
      exact (Option.some_ne_none p).symm
  · next hp =>
    obtain ⟨hpartition, hlast⟩ := ht.owner p m hm
    obtain ⟨hlt, -⟩ := List.getElem?_eq_some_iff.mp hpartition
    constructor
    · rwa [List.getElem?_append_left hlt]
    · intro m' hm'
      rcases Nat.lt_or_ge m' h.partitions.length with hlt' | hge
      · rw [List.getElem?_append_left hlt']
        exact hlast m' hm'
      · rw [List.getElem?_append_right hge]
        intro heq
        exact hp (List.mem_singleton.mp (List.mem_of_getElem? heq))

/-- An owner keeps its partition as long as no lease is taken of it. -/
theorem Tenured.owner_of_act (ht : Tenured h) {a : Act} (ha : ∀ task, a ≠ .step task)
    (hact : h.act a = some h') : ∀ p m, h'.owned.get? p = some m →
      h'.partitions[m]? = some p ∧ ∀ m', m < m' → h'.partitions[m']? ≠ some p := by
  have hkept (hpartitions : h'.partitions = h.partitions)
      (howned : ∀ p m, h'.owned.get? p = some m → h.owned.get? p = some m) (p : String) (m : Nat)
      (hm : h'.owned.get? p = some m) :
      h'.partitions[m]? = some p ∧ ∀ m', m < m' → h'.partitions[m']? ≠ some p := by
    rw [hpartitions]
    exact ht.owner p m (howned p m hm)
  cases a with
  | step task => exact absurd rfl (ha task)
  | tick =>
    cases hact
    exact hkept rfl fun _ _ => id
  | openPartition partition checkpoint =>
    cases hact
    exact ht.owner_openPartition partition checkpoint
  | setCheckpoint partition checkpoint =>
    cases hact
    obtain ⟨hpartitions, howned⟩ := h.setCheckpoint_eq partition checkpoint
    refine hkept hpartitions ?_
    intro p m hm
    rwa [howned] at hm
  | closePartition partition reason =>
    cases hact
    obtain ⟨-, hleases, -, howned⟩ := h.closePartition_eq partition reason
    exact hkept (by rw [Host.partitions, hleases, Host.partitions]) howned
  | shutdown =>
    cases hact
    obtain ⟨-, hleases, -, howned⟩ := h.shutdown_eq
    exact hkept (by rw [Host.partitions, hleases, Host.partitions]) howned
  | accept partition events cancelled =>
    rw [act, accept] at hact
    split at hact
    · cases hact
    · cases hact
      exact hkept rfl fun _ _ => id

theorem Tenured.idles (ht : Tenured h) (hs : Sound timely h) {a : Act}
    (ha : ∀ task, a ≠ .step task) (hact : h.act a = some h') : Tenured h' := by
  have hi := idles_of_act ha hact
  refine ⟨ht.owner_of_act ha hact, ?_, ?_⟩
  · intro m l' hl'
    rw [hi.dispatcher_eq]
    cases hl : h.leases[m]? with
    | none => rw [(hi.taken m l' hl hl').1, Gate.admission_new]
    | some l =>
      obtain ⟨l₁, hl₁, -, hgate, -⟩ := hi.kept m l hl
      obtain rfl := Option.some.inj (hl₁.symm.trans hl')
      rw [hgate]
      exact ht.admission m l hl
  · intro m l' hl'
    rw [hi.done_eq]
    cases hl : h.leases[m]? with
    | none => rw [(hi.taken m l' hl hl').2, hs.done_eq_zero hl]
    | some l =>
      obtain ⟨l₁, hl₁, -, -, hcheckpoints⟩ := hi.kept m l hl
      obtain rfl := Option.some.inj (hl₁.symm.trans hl')
      rw [hcheckpoints]
      exact ht.checkpoints m l hl

/-- Every host that can be reached keeps its leases in order. -/
theorem tenured_of_reaches (hreach : Reaches timely (.new d i) h) : Tenured h := by
  induction hreach with
  | refl => exact .new d i
  | tail hreach hmoves ih =>
    have hs := sound_of_reaches hreach
    obtain ⟨a, hact, -⟩ := hmoves
    by_cases hstep : ∃ task, a = .step task
    · obtain ⟨task, rfl⟩ := hstep
      obtain ⟨b, b', l, l', hv⟩ := hs.serves hact
      exact ih.serves hv
    · exact ih.idles hs (fun task heq => hstep ⟨task, heq⟩) hact

/-! ## Batches and their leases -/

/-- The level of a gate is the number of handlers of its own batches that are in flight. -/
theorem level_eq_count (hreach : Reaches timely (.new d i) h) (lease : Nat) :
    h.level lease = h.inFlight.count lease := by
  rw [level_eq_total hreach, total_lease]

end Host

end StreamDispatch
