import Mathlib.Data.List.Induction
import StreamDispatch.Proofs.Dictionary
import StreamDispatch.Proofs.Dispatch.Lease
import StreamDispatch.Proofs.Text.Utf8

set_option autoImplicit false

/-! # Who owns a partition

Whatever happens to a host, it owns partitions as a plain map from partitions to leases would have
it: a partition is owned by the lease that was taken of it last, if it has not been released since.
`Host.IsPlainMap` says what this means for every question that a host can be asked and for
everything that it can be told to do, and `Host.isPlainMap_after` that it holds after any sequence
of acts, in which tasks may be in the middle of their work. -/

namespace StreamDispatch

/-! ## What acts say of a partition -/

namespace Act

variable {p : String} {n : Nat} {acts : List Act} {a : Act}

/-- Whether an act takes a lease. -/
def isOpening : Act → Bool
  | .openPartition _ _ => true
  | _ => false

/-- Whether an act takes a lease of a partition. -/
def opens (p : String) : Act → Bool
  | .openPartition p' _ => p' == p
  | _ => false

/-- Whether an act releases a partition. -/
def releases (p : String) : Act → Bool
  | .closePartition p' _ => p' == p
  | .shutdown => true
  | _ => false

/-- There has been an act of one kind, and nothing but acts of another kind since. The first kind
may depend on what came before. -/
def Since (begun : List Act → Act → Prop) (kept : Act → Prop) (acts : List Act) : Prop :=
  ∃ before a after, acts = before ++ a :: after ∧ begun before a ∧ ∀ b ∈ after, kept b

theorem since_concat {begun : List Act → Act → Prop} {kept : Act → Prop} :
    Since begun kept (acts ++ [a]) ↔ begun acts a ∨ kept a ∧ Since begun kept acts := by
  constructor
  · rintro ⟨before, b, after, heq, hbegun, hkept⟩
    rcases List.eq_nil_or_concat after with rfl | ⟨after, c, rfl⟩
    · obtain ⟨rfl, rfl⟩ := List.append_singleton_inj.mp heq
      exact .inl hbegun
    · rw [List.concat_eq_append, ← List.cons_append, ← List.append_assoc,
        List.append_singleton_inj] at heq
      obtain ⟨rfl, rfl⟩ := heq
      simp only [List.concat_eq_append, List.forall_mem_append, List.forall_mem_singleton] at hkept
      exact .inr ⟨hkept.2, before, b, after, rfl, hbegun, hkept.1⟩
  · rintro (hbegun | ⟨ha, before, b, after, rfl, hbegun, hkept⟩)
    · exact ⟨acts, a, [], rfl, hbegun, nofun⟩
    · refine ⟨before, b, after ++ [a], by simp, hbegun, ?_⟩
      exact List.forall_mem_append.mpr ⟨hkept, List.forall_mem_singleton.mpr ha⟩

theorem not_since_nil {begun : List Act → Act → Prop} {kept : Act → Prop} :
    ¬Since begun kept [] := by
  rintro ⟨before, a, after, heq, -⟩
  simp at heq

/-- A partition has been opened, and has not been released since. -/
def IsHeld (p : String) : List Act → Prop :=
  Since (fun _ a => a.opens p = true) fun b => b.releases p = false

/-- A lease of a partition has been taken, and the partition has neither been opened again nor been
released since. The leases are numbered in the order in which they are taken. -/
def IsHeldBy (p : String) (n : Nat) : List Act → Prop :=
  Since (fun before a => a.opens p = true ∧ before.countP isOpening = n)
    fun b => b.opens p = false ∧ b.releases p = false

theorem isHeldBy_concat : IsHeldBy p n (acts ++ [a]) ↔
    (a.opens p = true ∧ acts.countP isOpening = n)
      ∨ (a.opens p = false ∧ a.releases p = false) ∧ IsHeldBy p n acts :=
  since_concat

/-- A partition that is held is held by one of its leases. -/
theorem isHeld_iff : IsHeld p acts ↔ ∃ n, IsHeldBy p n acts := by
  induction acts using List.reverseRecOn with
  | nil => exact iff_of_false not_since_nil fun ⟨_, h⟩ => not_since_nil h
  | append_singleton acts a ih =>
    simp only [isHeldBy_concat]
    rw [IsHeld, since_concat, ← IsHeld, ih]
    cases ha : a.opens p <;> simp

end Act

namespace Host

variable {h h' : Host} {timely : Bool} {d : Dispatcher} {i : Instrumentation} {acts : List Act}
  {p : String} {a : Act}

/-! ## Sequences of acts -/

/-- The host after an act. An act that is not possible changes nothing. -/
def undergo (h : Host) (a : Act) : Host := (h.act a).getD h

/-- The host after a sequence of acts. -/
def after (h : Host) (acts : List Act) : Host := acts.foldl undergo h

theorem after_concat (h : Host) (acts : List Act) (a : Act) :
    h.after (acts ++ [a]) = (h.after acts).undergo a :=
  List.foldl_concat ..

theorem reaches_after (h : Host) (acts : List Act) : Reaches false h (h.after acts) := by
  induction acts using List.reverseRecOn with
  | nil => exact .refl
  | append_singleton acts a ih =>
    rw [after_concat, undergo]
    cases hact : (h.after acts).act a with
    | none => exact ih
    | some h' => exact ih.tail ⟨a, hact, nofun⟩

/-! ## Lines of the log -/

/-- A host that differs from another one in nothing but lines of the log and the partitions that are
owned. -/
structure Tells (h h' : Host) (lines : List Log.Line) : Prop where
  journal_eq : h'.journal = h.journal ++ h.entries .host (Occurrence.ofLines lines)
  leases_eq : h'.leases = h.leases
  batches_eq : h'.batches = h.batches
  instrumentation_eq : h'.instrumentation = h.instrumentation
  dispatcher_eq : h'.dispatcher = h.dispatcher
  now_eq : h'.now = h.now

theorem tells_log (h : Host) (lines : List Log.Line) : Tells h (h.log lines) lines where
  journal_eq := by simp [log, entries, Occurrence.ofLines, Function.comp_def]
  leases_eq := rfl
  batches_eq := rfl
  instrumentation_eq := rfl
  dispatcher_eq := rfl
  now_eq := rfl

theorem Tells.trans {h'' : Host} {lines lines' : List Log.Line} (ht : Tells h h' lines)
    (ht' : Tells h' h'' lines') : Tells h h'' (lines ++ lines') where
  journal_eq := by
    rw [ht'.journal_eq, ht.journal_eq, List.append_assoc]
    simp [entries, Occurrence.ofLines, ht.now_eq]
  leases_eq := ht'.leases_eq.trans ht.leases_eq
  batches_eq := ht'.batches_eq.trans ht.batches_eq
  instrumentation_eq := ht'.instrumentation_eq.trans ht.instrumentation_eq
  dispatcher_eq := ht'.dispatcher_eq.trans ht.dispatcher_eq
  now_eq := ht'.now_eq.trans ht.now_eq

/-- The line with which a lease is closed. -/
def closing (h : Host) (reason : CloseReason) (lease : Nat) : Log.Line :=
  h.closeLine ((h.partitions[lease]?).getD "") reason

theorem Tells.closing_eq {lines : List Log.Line} (ht : Tells h h' lines) :
    h'.closing = h.closing := by
  funext reason lease
  simp only [closing, closeLine, Host.partitions, ht.leases_eq, ht.dispatcher_eq]

/-! ## Releases -/

theorem isOwned_iff : h.isOwned p = true ↔ ∃ n, h.owned.get? p = some n := by
  rw [isOwned, Dictionary.contains, Option.isSome_iff_exists]

theorem get?_owned_closePartition (h : Host) (partition : String) (reason : CloseReason)
    (p : String) : (h.closePartition partition reason).1.owned.get? p
      = if p = partition then none else h.owned.get? p := by
  unfold closePartition
  split
  · simp
  · next hnot =>
    split
    · next heq =>
      rw [isOwned_iff, not_exists, ← heq] at hnot
      exact Option.eq_none_iff_forall_ne_some.mpr hnot
    · rfl

/-- An owned partition is closed by its lease. -/
theorem tells_closePartition {n : Nat} (hn : h.owned.get? p = some n)
    (hp : h.partitions[n]? = some p) (reason : CloseReason) :
    Tells h (h.closePartition p reason).1 [h.closing reason n] := by
  have hline : h.closing reason n = h.closeLine p reason := by simp [closing, hp]
  have hlog := h.tells_log [h.closeLine p reason]
  rw [closePartition, if_pos (isOwned_iff.mpr ⟨n, hn⟩), hline]
  exact ⟨hlog.journal_eq, rfl, rfl, rfl, rfl, rfl⟩

/-- Partitions that are owned are closed one after the other, each of them by its lease. -/
theorem tells_closeAll {owners : List (String × Nat)} (hnd : (owners.map Prod.fst).Nodup)
    (howned : ∀ e ∈ owners, h.owned.get? e.1 = some e.2)
    (hpartition : ∀ e ∈ owners, h.partitions[e.2]? = some e.1) :
    Tells h ((owners.map Prod.fst).foldl
        (fun h partition => (h.closePartition partition .shutdown).1) h)
      (owners.map fun e => h.closing .shutdown e.2) := by
  induction owners generalizing h with
  | nil => exact ⟨by simp [entries, Occurrence.ofLines], rfl, rfl, rfl, rfl, rfl⟩
  | cons e rest ih =>
    obtain ⟨p, n⟩ := e
    rw [List.forall_mem_cons] at howned hpartition
    obtain ⟨hnew, hrest⟩ := List.nodup_cons.mp hnd
    have hfirst := tells_closePartition howned.1 hpartition.1 .shutdown
    -- The list of owners was made before; closing one of them leaves it right for the others.
    have hothers := ih hrest (h := (h.closePartition p .shutdown).1) ?_ ?_
    · rw [hfirst.closing_eq] at hothers
      exact hfirst.trans hothers
    · intro e he
      have hne : e.1 ≠ p := fun heq => hnew (List.mem_map.mpr ⟨e, he, heq⟩)
      rw [get?_owned_closePartition, if_neg hne]
      exact howned.2 e he
    · intro e he
      rw [Host.partitions, hfirst.leases_eq]
      exact hpartition.2 e he

theorem get?_owned_closeAll (partitions : List String) (h : Host) (p : String) :
    (partitions.foldl (fun h partition => (h.closePartition partition .shutdown).1) h).owned.get? p
      = if p ∈ partitions then none else h.owned.get? p := by
  induction partitions generalizing h with
  | nil => rfl
  | cons partition rest ih =>
    rw [List.foldl_cons, ih, get?_owned_closePartition]
    by_cases hrest : p ∈ rest <;> by_cases hp : p = partition <;> simp [hrest, hp]

theorem get?_owned_shutdown (h : Host) (p : String) : h.shutdown.owned.get? p = none := by
  rw [shutdown, get?_owned_closeAll]
  split
  · rfl
  · next hnot =>
    rw [ownedPartitions, Dictionary.mem_keys_iff, Bool.not_eq_true, Option.isSome_eq_false_iff,
      Option.isNone_iff_eq_none] at hnot
    exact hnot

/-- The line with which a host says that it releases all its partitions. -/
def shutdownLine (h : Host) : Log.Line :=
  Log.info "🛑 Shutting down processing coordinator" [("partitions", toString h.owned.size)]

/-- All partitions that are owned are closed in ascending order, each of them by its lease. -/
theorem tells_shutdown (hp : ∀ p n, h.owned.get? p = some n → h.partitions[n]? = some p) :
    Tells h h.shutdown (h.shutdownLine :: h.owned.toList.map fun e => h.closing .shutdown e.2) := by
  have hlog := h.tells_log [h.shutdownLine]
  have hclosed := tells_closeAll (h := h.log [h.shutdownLine]) h.owned.nodup_keys
    (fun e he => Dictionary.get?_of_mem he) fun e he => hp e.1 e.2 (Dictionary.get?_of_mem he)
  rw [hlog.closing_eq] at hclosed
  exact hlog.trans hclosed

/-! ## Who owns a partition after an act -/

theorem get?_owned_undergo (hs : Sound timely h) : (h.undergo a).owned.get? p
    = if a.opens p then some h.leases.length else if a.releases p then none
      else h.owned.get? p := by
  cases a with
  | step task =>
    have hsame : (h.undergo (.step task)).owned = h.owned := by
      rw [undergo, act]
      cases hstep : h.step task with
      | none => rfl
      | some h' =>
        obtain ⟨_, _, _, _, hv⟩ := hs.serves hstep
        exact hv.owned_eq
    simp [hsame, Act.opens, Act.releases]
  | tick => rfl
  | openPartition partition checkpoint =>
    by_cases hp : p = partition
    · simp [undergo, act, openPartition, Act.opens, hp]
    · simp [undergo, act, openPartition, Act.opens, Act.releases, hp, Ne.symm hp]
  | setCheckpoint partition checkpoint =>
    simp [undergo, act, Act.opens, Act.releases, (h.setCheckpoint_eq partition checkpoint).2]
  | closePartition partition reason =>
    by_cases hp : p = partition
    · simp [undergo, act, Act.opens, Act.releases, get?_owned_closePartition, hp]
    · simp [undergo, act, Act.opens, Act.releases, get?_owned_closePartition, hp, Ne.symm hp]
  | shutdown => simp [undergo, act, Act.opens, Act.releases, get?_owned_shutdown]
  | accept partition events cancelled =>
    have hsame : (h.undergo (.accept partition events cancelled)).owned = h.owned := by
      rw [undergo, act, accept]
      split <;> rfl
    simp [hsame, Act.opens, Act.releases]

/-- The leases are numbered in the order in which they are taken. -/
theorem length_leases_undergo (hs : Sound timely h) :
    (h.undergo a).leases.length = h.leases.length + a.isOpening.toNat := by
  cases a with
  | step task =>
    rw [undergo, act]
    cases hstep : h.step task with
    | none => rfl
    | some h' =>
      obtain ⟨_, _, _, _, hv⟩ := hs.serves hstep
      rw [Option.getD_some, hv.leases_eq, List.length_set]
      rfl
  | tick => rfl
  | openPartition partition checkpoint => simp [undergo, act, openPartition, Act.isOpening]
  | setCheckpoint partition checkpoint =>
    have hlength := congrArg List.length (h.setCheckpoint_eq partition checkpoint).1
    rwa [Host.partitions, Host.partitions, List.length_map, List.length_map] at hlength
  | closePartition partition reason =>
    exact congrArg List.length (h.closePartition_eq partition reason).2.1
  | shutdown => exact congrArg List.length h.shutdown_eq.2.1
  | accept partition events cancelled =>
    rw [undergo, act, accept]
    split <;> rfl

theorem length_leases_after (d : Dispatcher) (i : Instrumentation) (acts : List Act) :
    ((new d i).after acts).leases.length = acts.countP Act.isOpening := by
  induction acts using List.reverseRecOn with
  | nil => rfl
  | append_singleton acts a ih =>
    rw [after_concat, length_leases_undergo (sound_of_reaches (reaches_after _ acts)), ih,
      List.countP_append, List.countP_singleton]
    cases a.isOpening <;> rfl

/-- A partition is owned by the lease that was taken of it last, unless it was released since. -/
theorem get?_owned_after (d : Dispatcher) (i : Instrumentation) (acts : List Act) (p : String)
    (n : Nat) : ((new d i).after acts).owned.get? p = some n ↔ Act.IsHeldBy p n acts := by
  induction acts using List.reverseRecOn with
  | nil => exact iff_of_false nofun Act.not_since_nil
  -- A lease that is taken now gets the number of those that have been taken before.
  | append_singleton acts a ih =>
    rw [after_concat, get?_owned_undergo (sound_of_reaches (reaches_after _ acts)),
      length_leases_after, Act.isHeldBy_concat, ← ih]
    cases a.opens p <;> cases a.releases p <;> simp

/-! ## A host as a plain map -/

/-- What it is to take a lease of a partition: the lease is a new one, with a gate of its own, and
the partition is owned by it from now on. -/
structure Opens (h h' : Host) (p : String) (checkpoint : Except CheckpointError Unit) : Prop where
  leases_eq : h'.leases
    = h.leases ++ [⟨p, Gate.new p h.dispatcher.admission, checkpoint, 0⟩]
  not_owner : ∀ q, h.owned.get? q ≠ some h.leases.length
  no_batch : ∀ b ∈ h.batches, b.lease ≠ h.leases.length
  level_eq : h'.level h.leases.length = 0
  owner : ∀ q, h'.owned.get? q = if q = p then some h.leases.length else h.owned.get? q
  batches_eq : h'.batches = h.batches
  instrumentation_eq : h'.instrumentation = h.instrumentation
  journal_eq : h'.journal = h.journal ++ h.entries .host (Occurrence.ofLines
    (h.openLines p (Gate.new p h.dispatcher.admission)))

/-- What it is to release a partition: if it is owned, its lease is closed once, for the reason that
is given; if it is not, a warning is all that comes of it. -/
structure Closes (h h' : Host) (taken : Bool) (p : String) (reason : CloseReason) : Prop where
  taken_iff : taken = true ↔ h.isOwned p = true
  closed : ∀ n, h.owned.get? p = some n → Tells h h' [h.closing reason n]
  warned : h.isOwned p = false → Tells h h' [Log.warn
    "Close requested for a partition that is not owned"
    [("partition_id", p), ("reason", reason.name)]]
  owner : ∀ q, h'.owned.get? q = if q = p then none else h.owned.get? q

/-- What it is to release all partitions: each of those that are owned is closed once, in ascending
order. -/
structure ShutsDown (h h' : Host) : Prop where
  closed : Tells h h' (h.shutdownLine :: h.owned.toList.map fun e => h.closing .shutdown e.2)
  owner : ∀ q, h'.owned.get? q = none
  listed : h'.ownedPartitions = []

/-- A host that owns partitions as acts would have it. -/
structure IsPlainMap (acts : List Act) (h : Host) : Prop where
  /-- A partition is owned by the lease that was taken of it last, unless it was released since. -/
  owner : ∀ p n, h.owned.get? p = some n ↔ Act.IsHeldBy p n acts
  lease : ∀ p n, h.owned.get? p = some n →
    h.partitions[n]? = some p ∧ ∀ m, n < m → h.partitions[m]? ≠ some p
  isOwned_iff : ∀ p, h.isOwned p = true ↔ Act.IsHeld p acts
  listed_iff : ∀ p, p ∈ h.ownedPartitions ↔ Act.IsHeld p acts
  ascending : h.ownedPartitions.Pairwise fun p q => Text.bytes p < Text.bytes q
  opens : ∀ p checkpoint, h.Opens (h.openPartition p checkpoint) p checkpoint
  closes : ∀ p reason,
    h.Closes (h.closePartition p reason).1 (h.closePartition p reason).2 p reason
  /-- A batch goes to the owner of its partition, -/
  accepts : ∀ p n events cancelled, h.owned.get? p = some n → h.accept p events cancelled
    = .ok { h with batches := h.batches ++ [Batch.new n (events.getD []) cancelled] }
  /-- and to nobody if there is none. -/
  rejects : ∀ p events cancelled, h.isOwned p = false →
    h.accept p events cancelled = .error (.partitionNotOwned p)
      ∧ h.undergo (.accept p events cancelled) = h
  shutsDown : h.ShutsDown h.shutdown
  /-- There is nothing left to close after that. -/
  shutsDown_again : Tells h.shutdown h.shutdown.shutdown [h.shutdown.shutdownLine]

theorem opens_openPartition (hs : Sound timely h) (p : String)
    (checkpoint : Except CheckpointError Unit) :
    h.Opens (h.openPartition p checkpoint) p checkpoint where
  leases_eq := rfl
  not_owner q hq := Nat.lt_irrefl _ (hasLease_iff.mp (hs.leased q _ hq))
  no_batch b hb heq := by
    obtain ⟨n, hn⟩ := List.mem_iff_getElem?.mp hb
    exact Nat.lt_irrefl _ (hasLease_iff.mp (heq ▸ hs.batchLeased n b hn))
  level_eq := by simp [level, openPartition, log]
  owner q := by simp [openPartition]
  batches_eq := rfl
  instrumentation_eq := rfl
  journal_eq := (h.tells_log _).journal_eq

theorem closes_closePartition (ht : Tenured h) (p : String) (reason : CloseReason) :
    h.Closes (h.closePartition p reason).1 (h.closePartition p reason).2 p reason where
  taken_iff := by
    unfold closePartition
    split <;> simp_all
  closed n hn := tells_closePartition hn (ht.owner p n hn).1 reason
  warned hnot := by
    rw [closePartition, if_neg (by simp [hnot])]
    exact h.tells_log _
  owner := h.get?_owned_closePartition p reason

theorem shutsDown_shutdown (ht : Tenured h) : h.ShutsDown h.shutdown where
  closed := tells_shutdown fun p n hn => (ht.owner p n hn).1
  owner := h.get?_owned_shutdown
  listed := by
    refine List.eq_nil_iff_forall_not_mem.mpr fun p hp => ?_
    rw [ownedPartitions, Dictionary.mem_keys_iff, get?_owned_shutdown] at hp
    cases hp

/-- Whatever happens to a host, it owns partitions as a plain map would have it. -/
theorem isPlainMap_after (d : Dispatcher) (i : Instrumentation) (acts : List Act) :
    IsPlainMap acts ((new d i).after acts) := by
  have hreach := reaches_after (new d i) acts
  have howner := get?_owned_after d i acts
  have hheld (p : String) : ((new d i).after acts).isOwned p = true ↔ Act.IsHeld p acts := by
    simp only [isOwned_iff, howner, Act.isHeld_iff]
  generalize (new d i).after acts = h at *
  have hs := sound_of_reaches hreach
  have ht := tenured_of_reaches hreach
  exact {
    owner := howner
    lease := ht.owner
    isOwned_iff := hheld
    listed_iff := fun p => Dictionary.mem_keys_iff.trans (hheld p)
    ascending := h.owned.pairwise_keys.imp Text.lt_iff_bytes_lt.mp
    opens := opens_openPartition hs
    closes := closes_closePartition ht
    accepts := fun p n events cancelled hn => by rw [accept, hn]
    rejects := by
      intro p events cancelled hnot
      have hnone : h.owned.get? p = none := by
        rwa [isOwned, Dictionary.contains, Option.isSome_eq_false_iff, Option.isNone_iff_eq_none]
          at hnot
      have haccept : h.accept p events cancelled = .error (.partitionNotOwned p) := by
        rw [accept, hnone]
      exact ⟨haccept, by rw [undergo, act, haccept]; rfl⟩
    shutsDown := shutsDown_shutdown ht
    shutsDown_again := by
      have hlisted := (shutsDown_shutdown ht).listed
      have hnone : h.shutdown.owned.toList = [] := List.map_eq_nil_iff.mp hlisted
      have htells := tells_shutdown (h := h.shutdown) fun p n hn => by
        rw [get?_owned_shutdown] at hn
        cases hn
      rwa [hnone] at htells }

end Host

end StreamDispatch
