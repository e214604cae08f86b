import Mathlib.Logic.Relation
import StreamDispatch.Dispatch.Partition
import StreamDispatch.Proofs.Dispatch.Batch

set_option autoImplicit false

/-! # What can happen to a host

An `Act` is anything that can happen to a host: a task takes a step, the clock goes on, a lease is
taken or released, a batch arrives. A host reaches whatever a sequence of acts leads to, in any
order at all; on a timely host, which the clock waits for, only work that is not due is left when it
goes on.

`Host.Shows` says what can be seen of an act: the deeds at one place, and that the levels of the
gates and the counters follow from them. -/

namespace StreamDispatch

open Occurrence (deeds)

/-! ## Levels follow from deeds -/

/-- By how much a happening raises the level of a gate. -/
def Occurrence.lift : Occurrence → Int
  | .entered => 1
  | .left => -1
  | _ => 0

/-- By how much happenings raise the level of a gate. -/
def Occurrence.rise (os : List Occurrence) : Int := (os.map lift).sum

/-- Whether a handler has returned with a fault. -/
def Occurrence.isFault : Occurrence → Bool
  | .returned outcome => outcome.fault?.isSome
  | _ => false

open Occurrence (rise)

@[simp] theorem rise_nil : rise [] = 0 := rfl

@[simp] theorem rise_cons (o : Occurrence) (os : List Occurrence) :
    rise (o :: os) = o.lift + rise os := by
  simp [rise]

theorem rise_deeds (os : List Occurrence) : rise (deeds os) = rise os := by
  induction os with
  | nil => rfl
  | cons o os ih => cases o <;> simp [Occurrence.isLogged, Occurrence.lift, ih]

theorem Lease.level_record (l : Lease) (os : List Occurrence) :
    (os.foldl Lease.record l).gate.level = l.gate.level + rise os := by
  induction os generalizing l with
  | nil => simp
  | cons o os ih =>
    rw [List.foldl_cons, ih, rise_cons]
    cases o <;> simp [Lease.record, Occurrence.lift] <;> omega

theorem Lease.partition_record (l : Lease) (os : List Occurrence) :
    (os.foldl Lease.record l).partition = l.partition := by
  induction os generalizing l with
  | nil => rfl
  | cons o os ih =>
    rw [List.foldl_cons, ih]
    cases o <;> rfl

/-- Log lines are not counted. -/
theorem Instrumentation.record_deeds (i : Instrumentation) (os : List Occurrence) :
    (deeds os).foldl Instrumentation.record i = os.foldl Instrumentation.record i := by
  induction os generalizing i with
  | nil => rfl
  | cons o os ih => cases o <;> simp [Occurrence.isLogged, Instrumentation.record, ih]

/-! ## Acts -/

/-- Whether a task works on a batch. Cancelling one is no work. -/
def Task.isWork : Task → Bool
  | .canceller _ => false
  | _ => true

/-- Something that happens to a host. -/
inductive Act
  /-- A task takes a step, or a batch is cancelled. -/
  | step (task : Task)
  /-- The clock goes on by one tick. -/
  | tick
  | openPartition (partition : String) (checkpoint : Except CheckpointError Unit)
  | setCheckpoint (partition : String) (checkpoint : Except CheckpointError Unit)
  | closePartition (partition : String) (reason : CloseReason)
  | shutdown
  | accept (partition : String) (events : Option (List Event)) (cancelled : Bool)

namespace Host

/-- The host after an act, if it is possible. -/
def act (h : Host) : Act → Option Host
  | .step task => h.step task
  | .tick => some { h with now := h.now + 1 }
  | .openPartition partition checkpoint => some (h.openPartition partition checkpoint)
  | .setCheckpoint partition checkpoint => some (h.setCheckpoint partition checkpoint)
  | .closePartition partition reason => some (h.closePartition partition reason).1
  | .shutdown => some h.shutdown
  | .accept partition events cancelled => (h.accept partition events cancelled).toOption

/-- No work is due. -/
def Settled (h : Host) : Prop := ∀ task, task.isWork = true → h.step task = none

/-- Something happens to a host. On a timely host the clock waits for all work that is due. -/
def Moves (timely : Bool) (h h' : Host) : Prop :=
  ∃ a, h.act a = some h' ∧ (timely = true → a = .tick → h.Settled)

/-- A host comes to be what another one is. -/
abbrev Reaches (timely : Bool) : Host → Host → Prop := Relation.ReflTransGen (Moves timely)

/-! ## What can be seen of a host -/

variable {h h' : Host} {timely : Bool}

/-- The partitions that leases were taken of, lease by lease. -/
def partitions (h : Host) : List String := h.leases.map (·.partition)

/-- The level of the gate of a lease. -/
def level (h : Host) (lease : Nat) : Int := ((h.leases[lease]?).map (·.gate.level)).getD 0

/-- What has happened at a place, log lines left out. -/
def deeds (h : Host) (place : Place) : List Occurrence :=
  Occurrence.deeds ((h.journal.filter (·.place = place)).map (·.occurrence))

/-- A message with a worker. -/
def run? (h : Host) (t : Ticket) : Option Run := (h.batches[t.batch]?).bind (·.runs[t.index]?)

/-- The lease of a batch. -/
def leaseOf (h : Host) (n : Nat) : Nat := ((h.batches[n]?).map (·.lease)).getD 0

/-- Where and when a message is worked on. -/
def site (h : Host) (t : Ticket) : Site :=
  ⟨h.dispatcher, (h.partitions[h.leaseOf t.batch]?).getD "", t, h.now⟩

/-- How many handlers have come to a fault. -/
def faults (h : Host) : Nat := h.journal.countP (·.occurrence.isFault)

/-- What can be seen of something that happens at a place on behalf of a lease, with its deeds. -/
structure Shows (h h' : Host) (place : Place) (lease : Nat) (os : List Occurrence) : Prop where
  dispatcher_eq : h'.dispatcher = h.dispatcher
  partition_eq : ∀ (n : Nat) (p : String), h.partitions[n]? = some p → h'.partitions[n]? = some p
  level_eq : ∀ n, h'.level n = h.level n + if n = lease then rise os else 0
  instrumentation_eq : h'.instrumentation = os.foldl Instrumentation.record h.instrumentation
  deeds_eq : ∀ p, h'.deeds p = h.deeds p ++ if p = place then os else []
  faults_eq : h'.faults = h.faults + os.countP Occurrence.isFault

/-- Nothing but log lines and what is done to a lease. -/
abbrev Quiet (h h' : Host) : Prop := Shows h h' .host 0 []

theorem Quiet.trans {h'' : Host} {place : Place} {lease : Nat} {os : List Occurrence}
    (hq : Quiet h h') (hs : Shows h' h'' place lease os) : Shows h h'' place lease os where
  dispatcher_eq := hs.dispatcher_eq.trans hq.dispatcher_eq
  partition_eq n p hp := hs.partition_eq n p (hq.partition_eq n p hp)
  level_eq n := by
    rw [hs.level_eq, hq.level_eq]
    simp
  instrumentation_eq := by
    rw [hs.instrumentation_eq, hq.instrumentation_eq]
    rfl
  deeds_eq p := by
    rw [hs.deeds_eq, hq.deeds_eq]
    simp
  faults_eq := by
    rw [hs.faults_eq, hq.faults_eq]
    rfl

/-! ## Log lines and records -/

/-- Entries of the journal, all of them made now and at one place. -/
def entries (h : Host) (place : Place) (os : List Occurrence) : List Entry :=
  os.map fun o => ⟨h.now, place, o⟩

theorem filter_entries (h : Host) (place p : Place) (os : List Occurrence) :
    (h.entries place os).filter (·.place = p) = if p = place then h.entries place os else [] := by
  split
  · next hp => exact List.filter_eq_self.mpr (by simp [entries, hp])
  · next hp => exact List.filter_eq_nil_iff.mpr (by simp [entries, Ne.symm hp])

theorem deeds_append_entries (h : Host) (place p : Place) (os : List Occurrence) :
    ({ h with journal := h.journal ++ h.entries place os } : Host).deeds p
      = h.deeds p ++ if p = place then Occurrence.deeds os else [] := by
  simp only [deeds, List.filter_append, filter_entries, List.map_append, deeds_append]
  split
  · simp [entries, Function.comp_def]
  · rfl

theorem faults_append_entries (h : Host) (place : Place) (os : List Occurrence) :
    ({ h with journal := h.journal ++ h.entries place os } : Host).faults
      = h.faults + (Occurrence.deeds os).countP Occurrence.isFault := by
  have hlogged (o : Occurrence) : (o.isFault && !o.isLogged) = o.isFault := by
    cases o <;> simp [Occurrence.isFault, Occurrence.isLogged]
  simp [faults, entries, Occurrence.deeds, List.countP_map, List.countP_filter, Function.comp_def,
    hlogged]

theorem partitions_record (h : Host) (lease : Nat) (place : Place) (os : List Occurrence) :
    (h.record lease place os).partitions = h.partitions := by
  apply List.ext_getElem?
  intro n
  simp only [Host.partitions, record, List.getElem?_map, List.getElem?_modify]
  cases h.leases[n]? with
  | none => simp
  | some l => split <;> simp [Lease.partition_record]

theorem level_record (h : Host) (lease n : Nat) (place : Place) (os : List Occurrence)
    (hl : lease < h.leases.length) :
    (h.record lease place os).level n = h.level n + if n = lease then rise os else 0 := by
  simp only [level, record, List.getElem?_modify]
  by_cases hn : n = lease
  · subst hn
    simp [hl, Lease.level_record]
  · simp [hn, Ne.symm hn]

/-- A record shows its deeds. -/
theorem shows_record (h : Host) (lease : Nat) (place : Place) (os : List Occurrence)
    (hl : lease < h.leases.length) :
    Shows h (h.record lease place os) place lease (Occurrence.deeds os) where
  dispatcher_eq := rfl
  partition_eq n p hp := by rwa [partitions_record]
  level_eq n := by rw [level_record h lease n place os hl, rise_deeds]
  instrumentation_eq := (Instrumentation.record_deeds ..).symm
  deeds_eq p := deeds_append_entries h place p os
  faults_eq := faults_append_entries h place os

/-- Log lines are nothing that is done. -/
theorem quiet_log (h : Host) (lines : List Log.Line) : Quiet h (h.log lines) := by
  have hjournal : h.log lines
      = { h with journal := h.journal ++ h.entries .host (Occurrence.ofLines lines) } := by
    simp [log, entries, Occurrence.ofLines, Function.comp_def]
  rw [hjournal]
  exact {
    dispatcher_eq := rfl
    partition_eq := fun _ _ => id
    level_eq := by simp [level]
    instrumentation_eq := rfl
    deeds_eq := fun p => by rw [deeds_append_entries, deeds_ofLines]
    faults_eq := by rw [faults_append_entries, deeds_ofLines] }

/-- What is done to a lease does not show as long as its level stays. -/
theorem quiet_leases {leases : List Lease}
    (hl : ∀ (n : Nat) (l : Lease), h.leases[n]? = some l → ∃ l' : Lease, leases[n]? = some l'
      ∧ l'.partition = l.partition ∧ l'.gate.level = l.gate.level)
    (hnew : ∀ (n : Nat) (l : Lease), h.leases[n]? = none → leases[n]? = some l → l.gate.level = 0)
    (hd : h'.dispatcher = h.dispatcher) (hi : h'.instrumentation = h.instrumentation)
    (hj : h'.journal = h.journal) (hleases : h'.leases = leases) : Quiet h h' where
  dispatcher_eq := hd
  partition_eq n p hp := by
    simp only [Host.partitions, hleases, List.getElem?_map, Option.map_eq_some_iff] at hp ⊢
    obtain ⟨l, hn, rfl⟩ := hp
    obtain ⟨l', hn', hpartition, -⟩ := hl n l hn
    exact ⟨l', hn', hpartition⟩
  level_eq n := by
    cases hn : h.leases[n]? with
    | none =>
      -- The level of a lease that is not there is zero, and so is that of a new one.
      cases hn' : leases[n]? with
      | none => simp [level, hleases, hn, hn']
      | some l => simp [level, hleases, hn, hn', hnew n l hn hn']
    | some l =>
      obtain ⟨l', hl', -, hlevel⟩ := hl n l hn
      simp [level, hleases, hn, hl', hlevel]
  instrumentation_eq := hi
  deeds_eq := by simp [deeds, hj]
  faults_eq := by simp [faults, hj]

/-- The time, the batches and the partitions that are owned are no part of what shows. -/
theorem quiet_of_eq (hd : h'.dispatcher = h.dispatcher)
    (hi : h'.instrumentation = h.instrumentation)
    (hj : h'.journal = h.journal) (hl : h'.leases = h.leases) : Quiet h h' :=
  quiet_leases (fun _ l hn => ⟨l, hn, rfl, rfl⟩)
    (fun _ _ hn hn' => by rw [hn] at hn'; cases hn') hd hi hj hl

/-- A gate may be replaced by one of the same level. -/
theorem quiet_set_gate {lease : Nat} {l : Lease} {gate : Gate} (hl : h.leases[lease]? = some l)
    (hg : gate.level = l.gate.level) (hd : h'.dispatcher = h.dispatcher)
    (hi : h'.instrumentation = h.instrumentation) (hj : h'.journal = h.journal)
    (hleases : h'.leases = h.leases.set lease { l with gate }) : Quiet h h' := by
  refine quiet_leases ?_ ?_ hd hi hj hleases
  · intro n l' hn
    rw [List.getElem?_set]
    split
    · next heq =>
      subst heq
      obtain rfl := Option.some.inj (hl.symm.trans hn)
      obtain ⟨hlt, -⟩ := List.getElem?_eq_some_iff.mp hl
      exact ⟨_, if_pos hlt, rfl, hg⟩
    · exact ⟨l', hn, rfl, rfl⟩
  · intro n l' hn hn'
    rw [List.getElem?_set_ne] at hn'
    · rw [hn] at hn'
      cases hn'
    · rintro rfl
      rw [hl] at hn
      cases hn

/-! ## Acts that leave all batches alone -/

/-- A lease that was taken. -/
def HasLease (h : Host) (lease : Nat) : Prop := ∃ p, h.partitions[lease]? = some p

theorem hasLease_iff {lease : Nat} : h.HasLease lease ↔ lease < h.leases.length := by
  rw [HasLease, ← Option.isSome_iff_exists]
  simp [Host.partitions]

/-- A lease that was taken is never forgotten. -/
theorem Shows.hasLease {place : Place} {lease n : Nat} {os : List Occurrence}
    (hs : Shows h h' place lease os) (hn : h.HasLease n) : h'.HasLease n := by
  obtain ⟨p, hp⟩ := hn
  exact ⟨p, hs.partition_eq n p hp⟩

/-- Every partition that is owned has a lease. -/
def Leased (h : Host) : Prop := ∀ p n, h.owned.get? p = some n → h.HasLease n

/-- Something that happens to leases, or is logged. -/
structure Aside (h h' : Host) : Prop where
  quiet : Quiet h h'
  batches_eq : h'.batches = h.batches
  now_eq : h'.now = h.now
  leased : h.Leased → h'.Leased

theorem Aside.refl (h : Host) : Aside h h := ⟨quiet_of_eq rfl rfl rfl rfl, rfl, rfl, id⟩

theorem Aside.trans {h'' : Host} (ha : Aside h h') (ha' : Aside h' h'') : Aside h h'' where
  quiet := ha.quiet.trans ha'.quiet
  batches_eq := ha'.batches_eq.trans ha.batches_eq
  now_eq := ha'.now_eq.trans ha.now_eq
  leased hl := ha'.leased (ha.leased hl)

theorem aside_log (h : Host) (lines : List Log.Line) : Aside h (h.log lines) :=
  ⟨quiet_log h lines, rfl, rfl, id⟩

theorem aside_openPartition (h : Host) (partition : String)
    (checkpoint : Except CheckpointError Unit) :
    Aside h (h.openPartition partition checkpoint) := by
  have hleases : (h.openPartition partition checkpoint).leases = h.leases
      ++ [⟨partition, Gate.new partition h.dispatcher.admission, checkpoint, 0⟩] := rfl
  have hquiet : Quiet (h.log (h.openLines partition (Gate.new partition h.dispatcher.admission)))
      (h.openPartition partition checkpoint) := by
    refine quiet_leases ?_ ?_ rfl rfl rfl hleases
    · intro n l hn
      obtain ⟨hlt, -⟩ := List.getElem?_eq_some_iff.mp hn
      exact ⟨l, (List.getElem?_append_left hlt).trans hn, rfl, rfl⟩
    · intro n l hn hn'
      have hle : h.leases.length ≤ n := List.getElem?_eq_none_iff.mp hn
      rw [List.getElem?_append_right hle] at hn'
      obtain rfl := List.mem_singleton.mp (List.mem_of_getElem? hn')
      exact Gate.level_new ..
  refine ⟨(quiet_log h _).trans hquiet, rfl, rfl, ?_⟩
  intro hl p n hn
  simp only [openPartition, Dictionary.get?_insert] at hn
  split at hn
  · cases hn
    simp [hasLease_iff, hleases]
  · exact hquiet.hasLease (hl p n hn)

theorem aside_setCheckpoint (h : Host) (partition : String)
    (checkpoint : Except CheckpointError Unit) :
    Aside h (h.setCheckpoint partition checkpoint) := by
  unfold setCheckpoint
  split
  · exact .refl h
  · have hquiet (k : Nat) :
        Quiet h { h with leases := h.leases.modify k ({ · with checkpoint }) } := by
      refine quiet_leases ?_ ?_ rfl rfl rfl rfl
      · intro n l hn
        rw [List.getElem?_modify, hn]
        split
        · exact ⟨_, rfl, rfl, rfl⟩
        · exact ⟨_, rfl, rfl, rfl⟩
      · intro n l hn hn'
        simp [List.getElem?_modify, hn] at hn'
    exact ⟨hquiet _, rfl, rfl, fun hl p n hn => (hquiet _).hasLease (hl p n hn)⟩

theorem aside_closePartition (h : Host) (partition : String) (reason : CloseReason) :
    Aside h (h.closePartition partition reason).1 := by
  unfold closePartition
  split
  · refine (aside_log h [h.closeLine partition reason]).trans
      ⟨quiet_of_eq rfl rfl rfl rfl, rfl, rfl, ?_⟩
    intro hl p n hn
    simp only [Dictionary.get?_erase] at hn
    split at hn
    · cases hn
    · exact hl p n hn
  · exact aside_log h _

theorem aside_shutdown (h : Host) : Aside h h.shutdown := by
  have hfold (partitions : List String) (h : Host) : Aside h (partitions.foldl
      (fun h partition => (h.closePartition partition .shutdown).1) h) := by
    induction partitions generalizing h with
    | nil => exact .refl h
    | cons partition rest ih => exact (aside_closePartition h partition .shutdown).trans (ih _)
  exact (aside_log h _).trans (hfold h.ownedPartitions _)

end Host

end StreamDispatch
