import StreamDispatch.Proofs.Dispatch.Act

set_option autoImplicit false

/-! # The life of a host

`Host.Change` lists everything that can happen to a host: to one of its batches, to one of its
messages, or to neither. A host is sound as long as each of its messages has a life of its own and
each of its batches is orderly. From the two it follows that nothing that happens to a host
interferes with a message or a batch: each of them goes through steps of its own, or stays as it
is. -/

namespace StreamDispatch

namespace Host

variable {h h' : Host} {timely : Bool} {place : Place}

/-! ## Soundness -/

/-- Every message of a host has a life of its own, every batch is orderly, and nothing is told of
those that are not there. -/
structure Sound (timely : Bool) (h : Host) : Prop where
  leased : h.Leased
  batchLeased : ∀ (n : Nat) (b : Batch), h.batches[n]? = some b → h.HasLease b.lease
  orderly : ∀ (n : Nat) (b : Batch), h.batches[n]? = some b → b.Orderly
  history : ∀ (n : Nat) (b : Batch), h.batches[n]? = some b → h.deeds (.batch n) = b.history
  life : ∀ (t : Ticket) (r : Run), h.run? t = some r →
    Run.Life timely (h.site t) r (h.deeds (.message t))
  noBatch : ∀ n : Nat, h.batches[n]? = none → h.deeds (.batch n) = []
  noMessage : ∀ t : Ticket, h.run? t = none → h.deeds (.message t) = []

theorem Sound.new (d : Dispatcher) (i : Instrumentation) : Sound timely (Host.new d i) where
  leased _ _ := nofun
  batchLeased _ _ := nofun
  orderly _ _ := nofun
  history _ _ := nofun
  life _ _ := nofun
  noBatch _ _ := rfl
  noMessage _ _ := rfl

/-! ## Changes -/

/-- Something that happens to a host at a place. -/
inductive Change (timely : Bool) (h h' : Host) : Place → Prop
  | tick (settled : timely = true → h.Settled) (heq : h' = { h with now := h.now + 1 }) :
      Change timely h h' .host
  | aside (ha : Aside h h') : Change timely h h' .host
  | accepted {lease : Nat} {events : List Event} {cancelled : Bool} (hl : h.HasLease lease)
      (heq : h' = { h with batches := h.batches ++ [Batch.new lease events cancelled] }) :
      Change timely h h' .host
  | cancelled {n : Nat} {b : Batch} (hb : h.batches[n]? = some b) (hc : b.cancelled = false)
      (heq : h' = { h with batches := h.batches.set n { b with cancelled := true } }) :
      Change timely h h' .host
  | batch {n : Nat} {b b' : Batch} {l : Lease} {os : List Occurrence} (hb : h.batches[n]? = some b)
      (step : Batch.Step h.dispatcher l h.now b b' os)
      (hbatches : h'.batches = h.batches.set n b') (hnow : h'.now = h.now)
      (howned : h'.owned = h.owned) (shows : Shows h h' (.batch n) b.lease os) :
      Change timely h h' (.batch n)
  | message {t : Ticket} {b : Batch} {r r' : Run} {os : List Occurrence}
      (hb : h.batches[t.batch]? = some b) (hr : b.runs[t.index]? = some r)
      (step : Run.WorkerStep (h.site t) r r' os ∨ Run.StrandStep (h.site t) r r' os)
      (hbatches : h'.batches = h.batches.set t.batch { b with runs := b.runs.set t.index r' })
      (hnow : h'.now = h.now) (howned : h'.owned = h.owned)
      (shows : Shows h h' (.message t) b.lease os) : Change timely h h' (.message t)

theorem run?_eq_some {t : Ticket} {r : Run} :
    h.run? t = some r ↔ ∃ b, h.batches[t.batch]? = some b ∧ b.runs[t.index]? = some r :=
  Option.bind_eq_some_iff

theorem site_eq {t : Ticket} {b : Batch} {l : Lease} (hb : h.batches[t.batch]? = some b)
    (hl : h.leases[b.lease]? = some l) : h.site t = ⟨h.dispatcher, l.partition, t, h.now⟩ := by
  simp [site, leaseOf, Host.partitions, hb, hl]

theorem Sound.stage (hs : Sound timely h) {t : Ticket} {r : Run} (hr : h.run? t = some r) :
    Run.Stage (h.site t) r :=
  (hs.life t r hr).stage

/-- The lease of a batch is never lost. -/
theorem Sound.exists_lease (hs : Sound timely h) {n : Nat} {b : Batch}
    (hb : h.batches[n]? = some b) : ∃ l, h.leases[b.lease]? = some l :=
  ⟨_, List.getElem?_eq_getElem (hasLease_iff.mp (hs.batchLeased n b hb))⟩

/-- What a step of a batch does to the host. -/
theorem stepBatch_eq_some {n : Nat} (hstep : h.stepBatch n = some h') : ∃ b l b' gate os,
    h.batches[n]? = some b ∧ h.leases[b.lease]? = some l
      ∧ b.step h.dispatcher l h.instrumentation h.now = some (b', gate, os)
      ∧ h' = ({ h with
          batches := h.batches.set n b', leases := h.leases.set b.lease { l with gate } } :
            Host).record b.lease (.batch n) os := by
  simp only [stepBatch, bind, Option.bind_eq_some_iff, pure, Option.some.injEq] at hstep
  obtain ⟨b, hb, l, hl, ⟨b', gate, os⟩, hbatch, rfl⟩ := hstep
  exact ⟨b, l, b', gate, os, hb, hl, hbatch, rfl⟩

/-- What a step of a task of a message does to the host. -/
theorem stepRun_eq_some {t : Ticket} {step : Site → Run → Option (Run × List Occurrence)}
    (hstep : h.stepRun t step = some h') : ∃ b l r r' os,
    h.batches[t.batch]? = some b ∧ h.leases[b.lease]? = some l ∧ b.runs[t.index]? = some r
      ∧ step (h.site t) r = some (r', os)
      ∧ h' = ({ h with
          batches := h.batches.set t.batch { b with runs := b.runs.set t.index r' } } :
            Host).record b.lease (.message t) os := by
  simp only [stepRun, bind, Option.bind_eq_some_iff, pure, Option.some.injEq] at hstep
  obtain ⟨b, hb, l, hl, r, hr, ⟨r', os⟩, hrun, rfl⟩ := hstep
  exact ⟨b, l, r, r', os, hb, hl, hr, by rwa [site_eq hb hl], rfl⟩

theorem change_stepBatch {n : Nat} (hstep : h.stepBatch n = some h') :
    Change timely h h' (.batch n) := by
  obtain ⟨b, l, b', gate, os, hb, hl, hbatch, rfl⟩ := stepBatch_eq_some hstep
  obtain ⟨hstep, hlevel⟩ := Batch.step_step hbatch
  have hquiet : Quiet h { h with
      batches := h.batches.set n b', leases := h.leases.set b.lease { l with gate } } :=
    quiet_set_gate hl hlevel rfl rfl rfl rfl
  obtain ⟨hlt, -⟩ := List.getElem?_eq_some_iff.mp hl
  refine .batch hb hstep rfl rfl rfl (hquiet.trans ?_)
  exact shows_record _ b.lease (.batch n) os (by simpa using hlt)

theorem change_stepRun {t : Ticket} {step : Site → Run → Option (Run × List Occurrence)}
    (hcases : ∀ r r' os, h.run? t = some r → step (h.site t) r = some (r', os) →
      Run.WorkerStep (h.site t) r r' (Occurrence.deeds os)
        ∨ Run.StrandStep (h.site t) r r' (Occurrence.deeds os))
    (hstep : h.stepRun t step = some h') : Change timely h h' (.message t) := by
  obtain ⟨b, l, r, r', os, hb, hl, hr, hrun, rfl⟩ := stepRun_eq_some hstep
  have hsteps := hcases r r' os (run?_eq_some.mpr ⟨b, hb, hr⟩) hrun
  have hquiet : Quiet h { h with
      batches := h.batches.set t.batch { b with runs := b.runs.set t.index r' } } :=
    quiet_of_eq rfl rfl rfl rfl
  obtain ⟨hlt, -⟩ := List.getElem?_eq_some_iff.mp hl
  exact .message hb hr hsteps rfl rfl rfl (hquiet.trans (shows_record _ b.lease _ os hlt))

theorem cancel?_eq_some {n : Nat} (hstep : h.cancel? n = some h') :
    ∃ b, h.batches[n]? = some b ∧ b.cancelled = false
      ∧ h' = { h with batches := h.batches.set n { b with cancelled := true } } := by
  simp only [cancel?, bind, Option.bind_eq_some_iff] at hstep
  obtain ⟨b, hb, hcancel⟩ := hstep
  split at hcancel
  · cases hcancel
  · next hc => exact ⟨b, hb, by simpa using hc, (Option.some.inj hcancel).symm⟩

theorem change_cancel {n : Nat} (hstep : h.cancel? n = some h') : Change timely h h' .host := by
  obtain ⟨b, hb, hc, heq⟩ := cancel?_eq_some hstep
  exact .cancelled hb hc heq

theorem Sound.change_worker (hs : Sound timely h) {t : Ticket}
    (hstep : h.step (.worker t) = some h') : Change timely h h' (.message t) :=
  change_stepRun (fun _ _ _ hr hstep => .inl ((hs.stage hr).step_worker hstep)) hstep

theorem change_strand {t : Ticket} (hstep : h.step (.strand t) = some h') :
    Change timely h h' (.message t) :=
  change_stepRun (fun _ _ _ _ hstep => .inr (Run.step_strand hstep)) hstep

/-- Whatever happens to a sound host is one of the changes that are listed; only a step of a batch
happens at a batch. -/
theorem Sound.change_place (hs : Sound timely h) (hmoves : Moves timely h h') :
    ∃ place, Change timely h h' place ∧ ∀ n, place = .batch n → h.stepBatch n = some h' := by
  obtain ⟨a, ha, htick⟩ := hmoves
  cases a with
  | step task =>
    cases task with
    | batch n =>
      refine ⟨_, change_stepBatch ha, ?_⟩
      intro m hm
      cases hm
      exact ha
    | worker t => exact ⟨_, hs.change_worker ha, nofun⟩
    | strand t => exact ⟨_, change_strand ha, nofun⟩
    | canceller n => exact ⟨_, change_cancel ha, nofun⟩
  | tick => exact ⟨_, .tick (fun htimely => htick htimely rfl) (Option.some.inj ha).symm, nofun⟩
  | openPartition partition checkpoint =>
    exact ⟨_, .aside (Option.some.inj ha ▸ aside_openPartition h partition checkpoint), nofun⟩
  | setCheckpoint partition checkpoint =>
    exact ⟨_, .aside (Option.some.inj ha ▸ aside_setCheckpoint h partition checkpoint), nofun⟩
  | closePartition partition reason =>
    exact ⟨_, .aside (Option.some.inj ha ▸ aside_closePartition h partition reason), nofun⟩
  | shutdown => exact ⟨_, .aside (Option.some.inj ha ▸ aside_shutdown h), nofun⟩
  | accept partition events cancelled =>
    simp only [act, accept] at ha
    split at ha
    · cases ha
    · next lease hlease =>
      exact ⟨_, .accepted (hs.leased partition lease hlease) (Option.some.inj ha).symm, nofun⟩

theorem Sound.change (hs : Sound timely h) (hmoves : Moves timely h h') :
    ∃ place, Change timely h h' place := by
  obtain ⟨place, hc, -⟩ := hs.change_place hmoves
  exact ⟨place, hc⟩

/-! ## What a change does to a batch -/

/-- A batch changes as batches do, or it stays as it is. -/
theorem Sound.batch_cases (hs : Sound timely h) (hc : Change timely h h' place) {n : Nat}
    {b : Batch} (hb : h.batches[n]? = some b) : ∃ b' os, h'.batches[n]? = some b'
      ∧ (b' = b ∧ os = [] ∨ Batch.Change h.dispatcher b b' os)
      ∧ h'.deeds (.batch n) = h.deeds (.batch n) ++ os := by
  have hkept (hn : h'.batches[n]? = h.batches[n]?)
      (hdeeds : h'.deeds (.batch n) = h.deeds (.batch n)) : ∃ b' os, h'.batches[n]? = some b'
        ∧ (b' = b ∧ os = [] ∨ Batch.Change h.dispatcher b b' os)
        ∧ h'.deeds (.batch n) = h.deeds (.batch n) ++ os :=
    ⟨b, [], hn.trans hb, .inl ⟨rfl, rfl⟩, by simp [hdeeds]⟩
  -- Every other change replaces one batch, which may or may not be this one.
  have hset {m : Nat} {b₁ b' : Batch} (hm : h.batches[m]? = some b₁)
      (hbatches : h'.batches = h.batches.set m b') (os : List Occurrence)
      (hb' : Batch.Change h.dispatcher b₁ b' os)
      (hdeeds : h'.deeds (.batch n) = h.deeds (.batch n) ++ if n = m then os else []) :
      ∃ b' os, h'.batches[n]? = some b'
        ∧ (b' = b ∧ os = [] ∨ Batch.Change h.dispatcher b b' os)
        ∧ h'.deeds (.batch n) = h.deeds (.batch n) ++ os := by
    by_cases hn : n = m
    · subst hn
      obtain rfl := Option.some.inj (hm.symm.trans hb)
      obtain ⟨hlt, -⟩ := List.getElem?_eq_some_iff.mp hb
      exact ⟨b', os, by simp [hbatches, hlt], .inr hb', by simp [hdeeds]⟩
    · exact hkept (by rw [hbatches, List.getElem?_set_ne (Ne.symm hn)]) (by simp [hdeeds, hn])
  cases hc with
  | tick _ heq =>
    subst heq
    exact hkept rfl rfl
  | aside ha => exact hkept (by rw [ha.batches_eq]) (by simp [ha.quiet.deeds_eq])
  | accepted _ heq =>
    subst heq
    obtain ⟨hlt, -⟩ := List.getElem?_eq_some_iff.mp hb
    exact hkept (List.getElem?_append_left hlt) rfl
  | cancelled hm hcancel heq =>
    subst heq
    exact hset hm rfl [] (.cancelled hcancel) (by simp [deeds])
  | batch hm hstep hbatches _ _ shows =>
    exact hset hm hbatches _ (.step hstep) (by simp [shows.deeds_eq])
  | message hm hr hstep hbatches _ _ shows =>
    have hdeeds : h'.deeds (.batch n) = h.deeds (.batch n) := by simp [shows.deeds_eq]
    rcases hstep with hstep | hstep
    · exact hset hm hbatches [] (.worker hr (hs.stage (run?_eq_some.mpr ⟨_, hm, hr⟩)) hstep)
        (by simp [hdeeds])
    · exact hset hm hbatches [] (.strand hr hstep) (by simp [hdeeds])

/-- A batch that was not there before has only just arrived. -/
theorem Change.batch_origin (hc : Change timely h h' place) {n : Nat} {b' : Batch}
    (hb' : h'.batches[n]? = some b') : (∃ b, h.batches[n]? = some b)
      ∨ ∃ lease events cancelled, b' = Batch.new lease events cancelled ∧ h.HasLease lease := by
  have hlength (hle : h'.batches.length ≤ h.batches.length) : ∃ b, h.batches[n]? = some b := by
    obtain ⟨hlt, -⟩ := List.getElem?_eq_some_iff.mp hb'
    exact ⟨h.batches[n], List.getElem?_eq_getElem (by omega)⟩
  cases hc with
  | tick _ heq => exact .inl (hlength (by simp [heq]))
  | aside ha => exact .inl (hlength (by simp [ha.batches_eq]))
  | accepted hl heq =>
    subst heq
    rcases Nat.lt_or_ge n h.batches.length with hlt | hge
    · exact .inl ⟨h.batches[n], List.getElem?_eq_getElem hlt⟩
    · replace hb' := (List.getElem?_append_right hge).symm.trans hb'
      exact .inr ⟨_, _, _, List.mem_singleton.mp (List.mem_of_getElem? hb'), hl⟩
  | cancelled _ _ heq => exact .inl (hlength (by simp [heq]))
  | batch _ _ hbatches => exact .inl (hlength (by simp [hbatches]))
  | message _ _ _ hbatches => exact .inl (hlength (by simp [hbatches]))

/-! ## What a change does to a message -/

/-- What a change of a host does to one of its messages: the message afterwards, and its deeds. -/
inductive MessageChange (timely : Bool) (h h' : Host) (t : Ticket) (r : Run) :
    Run → List Occurrence → Prop
  | kept (hnow : h'.now = h.now) : MessageChange timely h h' t r r []
  | tick (hnow : h'.now = h.now + 1) (settled : timely = true → h.Settled) :
      MessageChange timely h h' t r r []
  | worker {r' : Run} {os : List Occurrence} (hnow : h'.now = h.now)
      (step : Run.WorkerStep (h.site t) r r' os) : MessageChange timely h h' t r r' os
  | strand {r' : Run} {os : List Occurrence} (hnow : h'.now = h.now)
      (step : Run.StrandStep (h.site t) r r' os) : MessageChange timely h h' t r r' os

theorem run?_of_batches_eq (hbatches : h'.batches = h.batches) (t : Ticket) :
    h'.run? t = h.run? t := by
  rw [run?, run?, hbatches]

/-- A batch that arrives has no messages with a worker. -/
theorem run?_of_accepted {lease : Nat} {events : List Event} {cancelled : Bool}
    (hbatches : h'.batches = h.batches ++ [Batch.new lease events cancelled]) (t : Ticket) :
    h'.run? t = h.run? t := by
  rw [run?, run?, hbatches]
  rcases Nat.lt_or_ge t.batch h.batches.length with hlt | hge
  · rw [List.getElem?_append_left hlt]
  · rw [List.getElem?_append_right hge, List.getElem?_eq_none_iff.mpr hge]
    cases t.batch - h.batches.length <;> rfl

theorem run?_of_set {n : Nat} {b b' : Batch} (hb : h.batches[n]? = some b)
    (hbatches : h'.batches = h.batches.set n b') (t : Ticket) :
    h'.run? t = if t.batch = n then b'.runs[t.index]? else h.run? t := by
  rw [run?, run?, hbatches, List.getElem?_set]
  obtain ⟨hlt, -⟩ := List.getElem?_eq_some_iff.mp hb
  by_cases hn : t.batch = n
  · simp [hn, hlt]
  · simp [hn, Ne.symm hn]

theorem run?_of_batch {t : Ticket} {b : Batch} (hb : h.batches[t.batch]? = some b) :
    h.run? t = b.runs[t.index]? := by
  simp [run?, hb]

/-- A batch that is cancelled keeps its messages as they are. -/
theorem run?_of_cancelled {n : Nat} {b : Batch} (hb : h.batches[n]? = some b)
    (hbatches : h'.batches = h.batches.set n { b with cancelled := true }) (t : Ticket) :
    h'.run? t = h.run? t := by
  rw [run?_of_set hb hbatches]
  split
  · next hn => rw [run?_of_batch (hn ▸ hb)]
  · rfl

theorem run?_of_set_run {t : Ticket} {b : Batch} {r r' : Run} (hb : h.batches[t.batch]? = some b)
    (hr : b.runs[t.index]? = some r)
    (hbatches : h'.batches = h.batches.set t.batch { b with runs := b.runs.set t.index r' })
    (t' : Ticket) : h'.run? t' = if t' = t then some r' else h.run? t' := by
  obtain ⟨hlt, -⟩ := List.getElem?_eq_some_iff.mp hr
  rw [run?_of_set hb hbatches]
  split
  · next hn =>
    rw [run?_of_batch (hn ▸ hb), List.getElem?_set]
    by_cases hindex : t.index = t'.index
    · have ht : t' = t := by cases t; cases t'; simp_all
      simp [ht, hlt]
    · have ht : t' ≠ t := fun ht => hindex (congrArg Ticket.index ht).symm
      simp [hindex, ht]
  · next hn =>
    have ht : t' ≠ t := fun ht => hn (congrArg Ticket.batch ht)
    simp [ht]

theorem stepRun_eq_none {t : Ticket} (hr : h.run? t = none)
    (step : Site → Run → Option (Run × List Occurrence)) : h.stepRun t step = none := by
  cases hb : h.batches[t.batch]? with
  | none => simp [stepRun, hb]
  | some b =>
    rw [run?_of_batch hb] at hr
    cases hl : h.leases[b.lease]? with
    | none => simp [stepRun, hb, hl]
    | some l => simp [stepRun, hb, hl, hr]

/-- A message goes through steps of its own, or it stays as it is. -/
theorem Change.run_cases (hc : Change timely h h' place) {t : Ticket} {r : Run}
    (hr : h.run? t = some r) : ∃ r' os, h'.run? t = some r' ∧ MessageChange timely h h' t r r' os
      ∧ h'.deeds (.message t) = h.deeds (.message t) ++ os := by
  have hkept (hrun : h'.run? t = h.run? t) (hnow : h'.now = h.now)
      (hdeeds : h'.deeds (.message t) = h.deeds (.message t)) :
      ∃ r' os, h'.run? t = some r' ∧ MessageChange timely h h' t r r' os
        ∧ h'.deeds (.message t) = h.deeds (.message t) ++ os :=
    ⟨r, [], hrun.trans hr, .kept hnow, by simp [hdeeds]⟩
  cases hc with
  | tick settled heq =>
    subst heq
    exact ⟨r, [], hr, .tick rfl settled, by simp [deeds]⟩
  | aside ha =>
    exact hkept (run?_of_batches_eq ha.batches_eq t) ha.now_eq (by simp [ha.quiet.deeds_eq])
  | accepted _ heq =>
    subst heq
    exact hkept (run?_of_accepted rfl t) rfl rfl
  | cancelled hb _ heq =>
    subst heq
    exact hkept (run?_of_cancelled hb rfl t) rfl rfl
  | @batch n b b' l os hb step hbatches hnow _ shows =>
    have hdeeds : h'.deeds (.message t) = h.deeds (.message t) := by simp [shows.deeds_eq]
    have hrun := run?_of_set hb hbatches t
    split at hrun
    · next hn =>
      rw [run?_of_batch (hn ▸ hb)] at hr
      rcases step.run_cases hr with hr' | ⟨abnormal, hw, hr'⟩
      · exact ⟨r, [], hrun.trans hr', .kept hnow, by simp [hdeeds]⟩
      · exact ⟨_, [], hrun.trans hr', .worker hnow (.noted hw), by simp [hdeeds]⟩
    · exact hkept hrun hnow hdeeds
  | @message t' b r₁ r₁' os hb hr₁ step hbatches hnow _ shows =>
    have hrun := run?_of_set_run hb hr₁ hbatches t
    by_cases ht : t = t'
    · subst ht
      rw [run?_of_batch hb, hr₁] at hr
      obtain rfl := Option.some.inj hr
      refine ⟨r₁', os, by simp [hrun], ?_, by simp [shows.deeds_eq]⟩
      rcases step with step | step
      · exact .worker hnow step
      · exact .strand hnow step
    · exact hkept (by simp [hrun, ht]) hnow (by simp [shows.deeds_eq, ht])

/-- A message that was not there before is untouched. -/
theorem Change.run_origin (hc : Change timely h h' place) {t : Ticket} {r' : Run}
    (hr' : h'.run? t = some r') : (∃ r, h.run? t = some r) ∨ ∃ e, r' = Run.new e := by
  cases hc with
  | tick _ heq =>
    subst heq
    exact .inl ⟨r', hr'⟩
  | aside ha => exact .inl ⟨r', run?_of_batches_eq ha.batches_eq t ▸ hr'⟩
  | accepted _ heq =>
    subst heq
    exact .inl ⟨r', (run?_of_accepted rfl t).symm.trans hr'⟩
  | cancelled hb _ heq =>
    subst heq
    exact .inl ⟨r', (run?_of_cancelled hb rfl t).symm.trans hr'⟩
  | @batch n b b' l os hb step hbatches =>
    rw [run?_of_set hb hbatches] at hr'
    split at hr'
    · next hn =>
      rw [run?_of_batch (hn ▸ hb)]
      exact step.run_origin hr'
    · exact .inl ⟨r', hr'⟩
  | @message t' b r₁ r₁' os hb hr₁ step hbatches =>
    rw [run?_of_set_run hb hr₁ hbatches] at hr'
    split at hr'
    · next ht => exact .inl ⟨r₁, ht ▸ (run?_of_batch hb).trans hr₁⟩
    · exact .inl ⟨r', hr'⟩

/-! ## Every host that can be reached is sound -/

theorem Change.shows (hc : Change timely h h' place) :
    ∃ lease os, Shows h h' place lease os := by
  cases hc with
  | tick _ heq | accepted _ heq | cancelled _ _ heq =>
    subst heq
    exact ⟨_, _, quiet_of_eq rfl rfl rfl rfl⟩
  | aside ha => exact ⟨_, _, ha.quiet⟩
  | batch _ _ _ _ _ shows => exact ⟨_, _, shows⟩
  | message _ _ _ _ _ _ shows => exact ⟨_, _, shows⟩

theorem Change.leased (hc : Change timely h h' place) (hl : h.Leased) : h'.Leased := by
  have howned {place : Place} {lease : Nat} {os : List Occurrence} (heq : h'.owned = h.owned)
      (hshows : Shows h h' place lease os) : h'.Leased :=
    fun p n hn => hshows.hasLease (hl p n (heq ▸ hn))
  cases hc with
  | tick _ heq | accepted _ heq | cancelled _ _ heq =>
    subst heq
    exact hl
  | aside ha => exact ha.leased hl
  | batch _ _ _ _ heq shows => exact howned heq shows
  | message _ _ _ _ _ heq shows => exact howned heq shows

/-- A message stays where it is; only time goes on. -/
theorem Sound.site_eq (hs : Sound timely h) (hc : Change timely h h' place) {t : Ticket} {b : Batch}
    (hb : h.batches[t.batch]? = some b) : h'.site t = { h.site t with now := h'.now } := by
  obtain ⟨lease, os, hshows⟩ := hc.shows
  obtain ⟨p, hp⟩ := hs.batchLeased _ b hb
  obtain ⟨b', os', hb', hcases, -⟩ := hs.batch_cases hc hb
  have hlease : b'.lease = b.lease := by
    rcases hcases with ⟨rfl, -⟩ | hchange
    · rfl
    · exact hchange.lease_eq
  simp [site, leaseOf, hb, hb', hlease, hp, hshows.partition_eq _ p hp, hshows.dispatcher_eq]

/-- A task of a message can go on on a sound host whenever the message can. -/
theorem Sound.isSome_stepRun (hs : Sound timely h) {t : Ticket} {r : Run} (hr : h.run? t = some r)
    (step : Site → Run → Option (Run × List Occurrence)) :
    (h.stepRun t step).isSome = (step (h.site t) r).isSome := by
  obtain ⟨b, hb, hr⟩ := run?_eq_some.mp hr
  obtain ⟨l, hl⟩ := hs.exists_lease hb
  rw [Host.site_eq hb hl]
  simp only [stepRun, hb, hl, hr, bind, Option.bind_some, pure]
  cases step _ r <;> rfl

/-- On a settled host every message is settled. -/
theorem Sound.settled_run (hs : Sound timely h) (hsettled : h.Settled) {t : Ticket} {r : Run}
    (hr : h.run? t = some r) : r.Settled (h.site t) := by
  have hworker := hs.isSome_stepRun hr fun s r => r.stepWorker s
  have hstrand := hs.isSome_stepRun hr fun s r => r.stepStrand s
  have hnone := hsettled (.worker t) rfl
  have hnone' := hsettled (.strand t) rfl
  simp only [step] at hnone hnone'
  rw [hnone] at hworker
  rw [hnone'] at hstrand
  exact ⟨by simpa using hworker.symm, by simpa using hstrand.symm⟩

/-- Nothing is told of a batch before it has arrived. -/
theorem Sound.untold_batch (hs : Sound timely h) (hc : Change timely h h' place) {n : Nat}
    (hn : h.batches[n]? = none) : h'.deeds (.batch n) = [] := by
  obtain ⟨lease, os, hshows⟩ := hc.shows
  have hplace : .batch n ≠ place := by
    intro hp
    subst hp
    cases hc with
    | batch hb =>
      rw [hn] at hb
      cases hb
  rw [hshows.deeds_eq, hs.noBatch n hn, if_neg hplace, List.append_nil]

/-- Nothing is told of a message before it has a worker. -/
theorem Sound.untold_message (hs : Sound timely h) (hc : Change timely h h' place) {t : Ticket}
    (ht : h.run? t = none) : h'.deeds (.message t) = [] := by
  obtain ⟨lease, os, hshows⟩ := hc.shows
  have hplace : .message t ≠ place := by
    intro hp
    subst hp
    cases hc with
    | message hb hr =>
      rw [run?_of_batch hb, hr] at ht
      cases ht
  rw [hshows.deeds_eq, hs.noMessage t ht, if_neg hplace, List.append_nil]

/-- Every batch stays in order, and what is told of it is what it has done. -/
theorem Sound.batch_step (hs : Sound timely h) (hc : Change timely h h' place) {n : Nat}
    {b' : Batch} (hb' : h'.batches[n]? = some b') :
    h'.HasLease b'.lease ∧ b'.Orderly ∧ h'.deeds (.batch n) = b'.history := by
  obtain ⟨_, _, hshows⟩ := hc.shows
  cases hb : h.batches[n]? with
  | none =>
    rcases hc.batch_origin hb' with ⟨b, hb₁⟩ | ⟨lease, events, cancelled, rfl, hl⟩
    · rw [hb] at hb₁
      cases hb₁
    · exact ⟨hshows.hasLease hl, .new lease events cancelled, hs.untold_batch hc hb⟩
  | some b =>
    obtain ⟨b₁, os, hb₁, hcases, hdeeds⟩ := hs.batch_cases hc hb
    obtain rfl := Option.some.inj (hb₁.symm.trans hb')
    have hl := hshows.hasLease (hs.batchLeased n b hb)
    rw [hdeeds, hs.history n b hb]
    rcases hcases with ⟨rfl, rfl⟩ | hchange
    · exact ⟨hl, hs.orderly n _ hb, List.append_nil _⟩
    · exact ⟨hchange.lease_eq ▸ hl, (hs.orderly n b hb).change hchange, hchange.history_eq.symm⟩

/-- The life of a message goes on. -/
theorem Sound.life_step (hs : Sound timely h) (hc : Change timely h h' place) {t : Ticket}
    {r r' : Run} (hr : h.run? t = some r) (hr' : h'.run? t = some r') :
    Run.Life timely (h'.site t) r' (h'.deeds (.message t)) := by
  obtain ⟨b, hb, -⟩ := run?_eq_some.mp hr
  have hsite := hs.site_eq hc hb
  obtain ⟨r'', os, hr'', hchange, hdeeds⟩ := hc.run_cases hr
  obtain rfl := Option.some.inj (hr''.symm.trans hr')
  have hlife := hs.life t r hr
  rw [hsite, hdeeds]
  cases hchange with
  | kept hnow =>
    rw [hnow, List.append_nil]
    exact hlife
  | tick hnow settled =>
    rw [hnow, List.append_nil]
    exact hlife.tick fun htimely => hs.settled_run (settled htimely) hr
  | worker hnow step =>
    rw [hnow]
    exact hlife.worker step
  | strand hnow step =>
    rw [hnow]
    exact hlife.strand step

/-- Every change of a sound host leaves it sound. -/
theorem Sound.step (hs : Sound timely h) (hc : Change timely h h' place) : Sound timely h' where
  leased := hc.leased hs.leased
  batchLeased n b' hb' := (hs.batch_step hc hb').1
  orderly n b' hb' := (hs.batch_step hc hb').2.1
  history n b' hb' := (hs.batch_step hc hb').2.2
  life t r' hr' := by
    cases hr : h.run? t with
    | none =>
      rcases hc.run_origin hr' with ⟨r, hr₁⟩ | ⟨e, rfl⟩
      · rw [hr] at hr₁
        cases hr₁
      · rw [hs.untold_message hc hr]
        exact .new _ e
    | some r => exact hs.life_step hc hr hr'
  noBatch n hn := by
    cases hb : h.batches[n]? with
    | none => exact hs.untold_batch hc hb
    | some b =>
      obtain ⟨b', os, hb', -⟩ := hs.batch_cases hc hb
      rw [hb'] at hn
      cases hn
  noMessage t ht := by
    cases hr : h.run? t with
    | none => exact hs.untold_message hc hr
    | some r =>
      obtain ⟨r', os, hr', -⟩ := hc.run_cases hr
      rw [hr'] at ht
      cases ht

theorem Sound.reaches (hs : Sound timely h) (hreach : Reaches timely h h') : Sound timely h' := by
  induction hreach with
  | refl => exact hs
  | tail _ hmoves ih =>
    obtain ⟨place, hc⟩ := ih.change hmoves
    exact ih.step hc

/-- Every host that can be reached from one that owns nothing yet is sound. -/
theorem sound_of_reaches {d : Dispatcher} {i : Instrumentation}
    (hreach : Reaches timely (.new d i) h) : Sound timely h :=
  (Sound.new d i).reaches hreach

/-- A batch has asked for one checkpoint if it is done, and for none otherwise. -/
theorem Sound.count_checkpointed (hs : Sound timely h) {n : Nat} {b : Batch}
    (hb : h.batches[n]? = some b) :
    (h.deeds (.batch n)).count .checkpointed = b.phase.isDone.toNat := by
  have hevents : ((b.runs.map (·.event)).map Occurrence.handedOut).count .checkpointed = 0 := by
    rw [List.count_eq_zero]
    simp
  rw [hs.history n b hb, Batch.history, List.count_append, hevents]
  cases b.phase.isDone <;> rfl

end Host

end StreamDispatch
