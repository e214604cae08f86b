import Mathlib.Tactic.Choose
import Mathlib.Tactic.Push
import StreamDispatch.Proofs.Dispatch.Host

set_option autoImplicit false

/-! # Courses of events

A course is an endless sequence of hosts, each of which has come from the one before by something
that happened. It is fair if time goes on and no work that can be done is put off for ever; of the
order in which work is done nothing is assumed. On a fair course a batch that has been admitted
comes to its end, and so does every handler that does not work for ever: all steps lead downwards,
and as long as the end has not come some task can go on. -/

namespace StreamDispatch

namespace Host

variable {h h' : Host} {timely : Bool} {place : Place}

/-! ## What never changes again -/

theorem Change.now_le (hc : Change timely h h' place) : h.now ≤ h'.now := by
  cases hc with
  | tick _ heq =>
    subst heq
    exact Nat.le_succ _
  | aside ha => exact Nat.le_of_eq ha.now_eq.symm
  | accepted _ heq | cancelled _ _ heq =>
    subst heq
    exact Nat.le_refl _
  | batch _ _ _ hnow | message _ _ _ _ hnow => exact Nat.le_of_eq hnow.symm

theorem Change.dispatcher_eq (hc : Change timely h h' place) : h'.dispatcher = h.dispatcher := by
  obtain ⟨_, _, hshows⟩ := hc.shows
  exact hshows.dispatcher_eq

theorem Sound.dispatcher_eq (hs : Sound timely h) (hreach : Reaches timely h h') :
    h'.dispatcher = h.dispatcher := by
  induction hreach with
  | refl => rfl
  | tail hreach hmoves ih =>
    obtain ⟨place, hc⟩ := (hs.reaches hreach).change hmoves
    exact hc.dispatcher_eq.trans ih

/-- The dispatcher of a host is the one that it began with. -/
theorem dispatcher_of_reaches {d : Dispatcher} {i : Instrumentation}
    (hreach : Reaches timely (.new d i) h) : h.dispatcher = d :=
  (Sound.new d i).dispatcher_eq hreach

/-- What a batch has come to later: it has the same events, and it stays admitted and done. -/
structure Continues (b b' : Batch) : Prop where
  lease_eq : b'.lease = b.lease
  events_eq : b'.events = b.events
  admitted : b.phase.isAdmitted = true → b'.phase.isAdmitted = true
  done : b.phase.isDone = true → b'.phase.isDone = true

theorem Sound.continues (hs : Sound timely h) (hreach : Reaches timely h h') {n : Nat} {b : Batch}
    (hb : h.batches[n]? = some b) : ∃ b', h'.batches[n]? = some b' ∧ Continues b b' := by
  induction hreach with
  | refl => exact ⟨b, hb, rfl, rfl, id, id⟩
  | tail hreach hmoves ih =>
    obtain ⟨b₁, hb₁, hc₁⟩ := ih
    have hs₁ := hs.reaches hreach
    obtain ⟨place, hchange⟩ := hs₁.change hmoves
    obtain ⟨b₂, os, hb₂, hcases, -⟩ := hs₁.batch_cases hchange hb₁
    refine ⟨b₂, hb₂, ?_⟩
    rcases hcases with ⟨rfl, -⟩ | hchange
    · exact hc₁
    · exact ⟨hchange.lease_eq.trans hc₁.lease_eq, hchange.events_eq.trans hc₁.events_eq,
        fun ha => hchange.isAdmitted (hc₁.admitted ha), fun hd => hchange.isDone (hc₁.done hd)⟩

/-- A message stays where it is; only time goes on. -/
theorem Sound.site_reaches (hs : Sound timely h) (hreach : Reaches timely h h') {t : Ticket}
    {b : Batch} (hb : h.batches[t.batch]? = some b) :
    h'.site t = { h.site t with now := h'.now } := by
  induction hreach with
  | refl => rfl
  | tail hreach hmoves ih =>
    have hs₁ := hs.reaches hreach
    obtain ⟨b₁, hb₁, -⟩ := hs.continues hreach hb
    obtain ⟨place, hchange⟩ := hs₁.change hmoves
    rw [hs₁.site_eq hchange hb₁, ih]

theorem MessageChange.event_eq {t : Ticket} {r r' : Run} {os : List Occurrence}
    (hc : MessageChange timely h h' t r r' os) : r'.event = r.event := by
  cases hc with
  | kept | tick => rfl
  | worker _ step => exact step.event_eq
  | strand _ step =>
    obtain ⟨strand, rfl, -⟩ := step.advances
    rfl

/-- What the batch has taken note of is for good. -/
theorem MessageChange.joined {t : Ticket} {r r' : Run} {os : List Occurrence}
    (hc : MessageChange timely h h' t r r' os) (hw : r.worker = .joined) :
    r'.worker = .joined := by
  cases hc with
  | kept | tick => exact hw
  | worker _ step => exact absurd hw step.ne_joined
  | strand _ step =>
    obtain ⟨strand, rfl, -⟩ := step.advances
    exact hw

/-- A message that has a worker is never forgotten. -/
theorem Sound.run_continues (hs : Sound timely h) (hreach : Reaches timely h h') {t : Ticket}
    {r : Run} (hr : h.run? t = some r) : ∃ r', h'.run? t = some r' ∧ r'.event = r.event
      ∧ (r.worker = .joined → r'.worker = .joined) := by
  induction hreach with
  | refl => exact ⟨r, hr, rfl, id⟩
  | tail hreach hmoves ih =>
    obtain ⟨r₁, hr₁, he₁, hw₁⟩ := ih
    obtain ⟨place, hchange⟩ := (hs.reaches hreach).change hmoves
    obtain ⟨r₂, os, hr₂, hcases, hdeeds⟩ := hchange.run_cases hr₁
    exact ⟨r₂, hr₂, hcases.event_eq.trans he₁, fun hw => hcases.joined (hw₁ hw)⟩

/-- A batch at rest keeps its messages as they are. -/
theorem Sound.batch_rest (hs : Sound timely h) (hreach : Reaches timely h h') {n : Nat} {b : Batch}
    (hb : h.batches[n]? = some b) (hr : b.isAtRest = true) :
    ∃ b', h'.batches[n]? = some b'
      ∧ b'.lease = b.lease ∧ b'.runs = b.runs ∧ b'.isAtRest = true := by
  induction hreach with
  | refl => exact ⟨b, hb, rfl, rfl, hr⟩
  | tail hreach hmoves ih =>
    obtain ⟨b₁, hb₁, hlease₁, hruns₁, hr₁⟩ := ih
    have hs₁ := hs.reaches hreach
    obtain ⟨place, hchange⟩ := hs₁.change hmoves
    obtain ⟨b₂, os, hb₂, hcases, -⟩ := hs₁.batch_cases hchange hb₁
    rcases hcases with ⟨rfl, -⟩ | hchange
    · exact ⟨b₂, hb₂, hlease₁, hruns₁, hr₁⟩
    · obtain ⟨hruns₂, hr₂⟩ := hchange.rest (hs₁.orderly n b₁ hb₁) hr₁
      exact ⟨b₂, hb₂, hchange.lease_eq.trans hlease₁, hruns₂.trans hruns₁, hr₂⟩

/-- Nothing happens any more to a message whose tasks have nothing left to do. -/
theorem Sound.run_finished (hs : Sound timely h) (hreach : Reaches timely h h') {t : Ticket}
    {r : Run} (hr : h.run? t = some r) (hw : r.worker = .joined) (hd : r.strand.isDone = true) :
    h'.run? t = some r ∧ h'.deeds (.message t) = h.deeds (.message t) := by
  induction hreach with
  | refl => exact ⟨hr, rfl⟩
  | tail hreach hmoves ih =>
    obtain ⟨hr₁, hdeeds₁⟩ := ih
    obtain ⟨place, hchange⟩ := (hs.reaches hreach).change hmoves
    obtain ⟨r₂, os, hr₂, hcases, hdeeds⟩ := hchange.run_cases hr₁
    cases hcases with
    | kept | tick => exact ⟨hr₂, by rw [hdeeds, hdeeds₁, List.append_nil]⟩
    | worker _ step => exact absurd hw step.ne_joined
    | strand _ step => simp [step.isDone_eq_false] at hd

/-! ## Arrival -/

section Arrival

variable {h₁ : Host} {d : Dispatcher} {i : Instrumentation} {partition : String}
  {events : Option (List Event)} {cancelled : Bool}

/-- A batch that is accepted takes the next number. -/
theorem accept_eq_ok (haccept : h.accept partition events cancelled = .ok h₁) :
    ∃ lease, h.owned.get? partition = some lease ∧ h₁ =
      { h with batches := h.batches ++ [Batch.new lease (events.getD []) cancelled] } := by
  unfold accept at haccept
  split at haccept
  · cases haccept
  · next lease hlease => exact ⟨lease, hlease, (Except.ok.inj haccept).symm⟩

theorem reaches_accept (haccept : h.accept partition events cancelled = .ok h₁) :
    Reaches timely h h₁ := by
  refine .single ⟨.accept partition events cancelled, ?_, fun _ => nofun⟩
  simp only [act, haccept]
  rfl

end Arrival

/-! ## Courses -/

/-- An endless course of events; nothing may happen for a while. -/
def IsCourse (timely : Bool) (σ : Nat → Host) : Prop :=
  ∀ k, σ (k + 1) = σ k ∨ Moves timely (σ k) (σ (k + 1))

/-- Time goes on, and no work that can be done is put off for ever. -/
structure IsFair (σ : Nat → Host) : Prop where
  clock : ∀ tick, ∃ k, tick ≤ (σ k).now
  work : ∀ task : Task, task.isWork = true → ∀ k,
    (∀ m, k ≤ m → ((σ m).step task).isSome = true) →
      ∃ m, k ≤ m ∧ (σ m).step task = some (σ (m + 1))

variable {σ : Nat → Host}

theorem IsCourse.reaches (hσ : IsCourse timely σ) {k m : Nat} (hle : k ≤ m) :
    Reaches timely (σ k) (σ m) := by
  induction hle with
  | refl => exact .refl
  | @step m _ ih =>
    rcases hσ m with heq | hmoves
    · rwa [heq]
    · exact ih.tail hmoves

theorem IsCourse.sound (hσ : IsCourse timely σ) (hs : (σ 0).Sound timely) (k : Nat) :
    (σ k).Sound timely :=
  hs.reaches (hσ.reaches (Nat.zero_le k))

/-- Time never goes back. -/
theorem IsCourse.now_le (hσ : IsCourse timely σ) (hs : (σ 0).Sound timely) {k m : Nat}
    (hle : k ≤ m) : (σ k).now ≤ (σ m).now := by
  induction hle with
  | refl => exact Nat.le_refl _
  | @step m _ ih =>
    rcases hσ m with heq | hmoves
    · rwa [heq]
    · obtain ⟨place, hc⟩ := (hσ.sound hs m).change hmoves
      exact Nat.le_trans ih hc.now_le

/-- Every tick is behind from some point on. -/
theorem IsFair.clock_from (hf : IsFair σ) (hσ : IsCourse timely σ) (hs : (σ 0).Sound timely)
    (tick k : Nat) : ∃ m, k ≤ m ∧ ∀ m', m ≤ m' → tick ≤ (σ m').now := by
  obtain ⟨m, hm⟩ := hf.clock tick
  refine ⟨max k m, Nat.le_max_left k m, fun m' hm' => Nat.le_trans hm (hσ.now_le hs ?_)⟩
  exact Nat.le_trans (Nat.le_max_right k m) hm'

/-! ## What cannot stand still comes to its end -/

/-- Work that can be done from some tick on is done at last. -/
theorem IsFair.takes (hf : IsFair σ) (hσ : IsCourse timely σ) (hs : (σ 0).Sound timely)
    (task : Task) (hwork : task.isWork = true) {k : Nat} (tick : Nat)
    (hgo : ∀ m, k ≤ m → tick ≤ (σ m).now → ((σ m).step task).isSome = true) :
    ∃ m, k ≤ m ∧ (σ m).step task = some (σ (m + 1)) := by
  obtain ⟨k', hk', hclock⟩ := hf.clock_from hσ hs tick k
  obtain ⟨m, hm, hstep⟩ := hf.work task hwork k' fun m hm =>
    hgo m (Nat.le_trans hk' hm) (hclock m hm)
  exact ⟨m, Nat.le_trans hk' hm, hstep⟩

/-! ## Batches end -/

theorem Sound.isSome_stepBatch (hs : Sound timely h) {n : Nat} {b : Batch}
    (hb : h.batches[n]? = some b) (hgo : ∀ d l i now, (b.step d l i now).isSome = true) :
    (h.step (.batch n)).isSome = true := by
  obtain ⟨l, hl⟩ := hs.exists_lease hb
  obtain ⟨_, hstep⟩ :=
    Option.isSome_iff_exists.mp (hgo h.dispatcher l h.instrumentation h.now)
  simp [Host.step, stepBatch, hb, hl, hstep]

theorem getElem?_set_eq {n : Nat} {b b' b₁ : Batch} (hb : h.batches[n]? = some b)
    (hbatches : h'.batches = h.batches.set n b₁) (hb' : h'.batches[n]? = some b') : b' = b₁ := by
  obtain ⟨hlt, -⟩ := List.getElem?_eq_some_iff.mp hb
  rw [hbatches, List.getElem?_set_self hlt] at hb'
  exact (Option.some.inj hb').symm

/-- A change of an admitted batch or of one of its messages leaves fewer steps to be taken. -/
theorem Sound.stepsLeft_lt (hs : Sound timely h) {n : Nat}
    (hc : Change timely h h' place) (hplace : place = .batch n ∨ ∃ j, place = .message ⟨n, j⟩)
    {b b' : Batch} (hb : h.batches[n]? = some b) (hb' : h'.batches[n]? = some b')
    (ha : b.phase.isAdmitted = true) : b'.stepsLeft < b.stepsLeft := by
  rcases hplace with rfl | ⟨j, rfl⟩
  · cases hc with
    | batch hb₁ step hbatches =>
      obtain rfl := getElem?_set_eq hb hbatches hb'
      obtain rfl := Option.some.inj (hb₁.symm.trans hb)
      exact step.stepsLeft_lt ha
  · cases hc with
    | message hb₁ hr step hbatches =>
      obtain rfl := getElem?_set_eq hb hbatches hb'
      obtain rfl := Option.some.inj (hb₁.symm.trans hb)
      have hstage := hs.stage (run?_eq_some.mpr ⟨_, hb₁, hr⟩)
      rcases step with step | step
      · exact Batch.stepsLeft_set_run hr (step.stepsLeft_lt hstage)
      · exact Batch.stepsLeft_set_run hr step.stepsLeft_lt

end Host

end StreamDispatch
