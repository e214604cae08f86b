import Mathlib.Data.List.Nodup
import StreamDispatch.Proofs.Breaker.Session

set_option autoImplicit false

/-! # A session that is advanced plays

A session that is advanced lets the clock leap from one look to the next, and lets all checks look
that are due. The same comes of single ticks and looks, one after the other: none of the ticks that
the clock leaps over belongs to a check, and it makes no difference whether a check waits or is set
aside while others look. So whatever a session is asked to do is a list of acts. -/

namespace StreamDispatch.Breaker

namespace Session

/-! ## No look is overdue -/

/-- The checks that wait can be told apart, and none of them should have looked by now. -/
structure Awake (s : Session) : Prop where
  distinct : (s.waiting.map (·.id)).Nodup
  later : ∀ w ∈ s.waiting, s.now < w.wake

variable {s : Session} {id : Nat} {o : Breaker × Check × List Notice}

theorem Awake.new (role partition : String) (config : Config) :
    Awake (.new role partition config) where
  distinct := List.nodup_nil
  later _ := nofun

/-- A check that is new to those that wait may wait with them for a later tick. -/
theorem Awake.settle (hs : s.Awake) (hid : ∀ w ∈ s.waiting, w.id ≠ id)
    (ho : ∀ found wake, o.2.1 = .stalled found wake → s.now < wake) : (s.settle id o).Awake := by
  obtain ⟨b, check, notices⟩ := o
  cases check with
  | passed => exact ⟨hs.distinct, hs.later⟩
  | refused => exact ⟨hs.distinct, hs.later⟩
  | stalled found wake =>
    constructor
    · rw [waiting_settle, List.map_append]
      refine List.nodup_append.mpr ⟨hs.distinct, List.nodup_singleton _, ?_⟩
      intro i hi j hj
      obtain ⟨w, hw, rfl⟩ := List.mem_map.mp hi
      rw [List.mem_singleton.mp hj]
      exact hid w hw
    · intro w hw
      rw [waiting_settle] at hw
      rcases List.mem_append.mp hw with hw | hw
      · exact hs.later w hw
      · rw [List.mem_singleton.mp hw]
        exact ho found wake rfl

/-- Whoever no longer waits is no matter of those who do. -/
theorem Awake.filter (hs : s.Awake) (p : Waiting → Bool) (ended : List Ended)
    (notices : List Notice) :
    ({ s with waiting := s.waiting.filter p, ended, notices } : Session).Awake where
  distinct := hs.distinct.sublist (List.filter_sublist.map _)
  later w hw := hs.later w (List.mem_filter.mp hw).1

/-! ## Looks -/

/-- A check that is found is the one that has the number. -/
theorem waiting?_of_mem (hdistinct : (s.waiting.map (·.id)).Nodup) {w : Waiting}
    (hw : w ∈ s.waiting) : s.waiting? w.id = some w := by
  cases hfound : s.waiting? w.id with
  | none =>
    rw [waiting?, List.find?_eq_none] at hfound
    exact absurd BEq.rfl (hfound w hw)
  | some w' =>
    have hid : w'.id = w.id := by simpa using List.find?_some hfound
    rw [List.inj_on_of_nodup_map hdistinct (List.mem_of_find?_eq_some hfound) hw hid]

/-- Others may be set aside before or after a check has looked. -/
theorem filter_settle {p : Waiting → Bool} (hp : ∀ w, w.id = id → p w = true) :
    { s.settle id o with waiting := (s.settle id o).waiting.filter p }
      = ({ s with waiting := s.waiting.filter p } : Session).settle id o := by
  obtain ⟨b, check, notices⟩ := o
  cases check with
  | passed => rfl
  | refused => rfl
  | stalled found wake => simp [Session.settle, hp ⟨id, found, wake⟩ rfl]

/-- Checks that are due may look one by one, while the others wait. -/
theorem play_looks {due : List Waiting} (hdistinct : (s.waiting.map (·.id)).Nodup)
    (hdue : (due.map (·.id)).Nodup) (hmem : ∀ w ∈ due, w ∈ s.waiting ∧ w.wake ≤ s.now) :
    s.play (due.map fun w => .look w.id)
      = some (due.foldl (fun s w => s.settle w.id (s.breaker.look s.now false))
        { s with waiting := s.waiting.filter fun w => !(due.map (·.id)).contains w.id }) := by
  induction due generalizing s with
  | nil => simp only [List.map_nil, List.contains_nil, Bool.not_false, List.filter_true, play,
      List.foldl_nil]
  | cons w rest ih =>
    obtain ⟨hw, hwake⟩ := hmem w List.mem_cons_self
    obtain ⟨hfresh, hrest⟩ := List.nodup_cons.mp hdue
    have hact : s.act (.look w.id) = some (s.lookOf w.id) :=
      act_look_eq_some.mpr ⟨w, waiting?_of_mem hdistinct hw, hwake, rfl⟩
    have hdistinct₁ : ((s.lookOf w.id).waiting.map (·.id)).Nodup := by
      rw [waiting_lookOf, List.map_append]
      refine List.nodup_append.mpr ⟨hdistinct.sublist (List.filter_sublist.map _), ?_, ?_⟩
      · split <;> simp
      · intro i hi j hj
        obtain ⟨w', hw', rfl⟩ := List.mem_map.mp hi
        have hne : w'.id ≠ w.id := by simpa using (List.mem_filter.mp hw').2
        have hj : j = w.id := by
          split at hj
          · simpa using hj
          · cases hj
        rwa [hj]
    have hmem₁ (w' : Waiting) (hw' : w' ∈ rest) :
        w' ∈ (s.lookOf w.id).waiting ∧ w'.wake ≤ (s.lookOf w.id).now := by
      obtain ⟨hin, hdue'⟩ := hmem w' (List.mem_cons_of_mem _ hw')
      have hne : w'.id ≠ w.id := by
        intro heq
        refine hfresh (List.mem_map.mpr ⟨w', hw', heq⟩)
      constructor
      · rw [waiting_lookOf]
        exact List.mem_append_left _ (List.mem_filter.mpr ⟨hin, by simpa using hne⟩)
      · rw [lookOf, now_settle]
        exact hdue'
    rw [List.map_cons, play, hact, Option.bind_some, ih hdistinct₁ hrest hmem₁, List.foldl_cons]
    -- The check has looked before the others are set aside; it may as well look afterwards.
    have hkeep (w' : Waiting) (hw' : w'.id = w.id) :
        (!(rest.map (·.id)).contains w'.id) = true := by
      simpa [hw'] using hfresh
    rw [lookOf, filter_settle hkeep, List.filter_filter]
    congr 3
    simp only [List.map_cons, List.contains_cons, Bool.not_or, Bool.and_comm]
    rfl

/-- Checks that have looked wait for a later tick. -/
theorem Awake.looks {due : List Waiting} (hs : s.Awake) (hdue : (due.map (·.id)).Nodup)
    (hfresh : ∀ w ∈ due, ∀ w' ∈ s.waiting, w'.id ≠ w.id) :
    (due.foldl (fun s w => s.settle w.id (s.breaker.look s.now false)) s).Awake := by
  induction due generalizing s with
  | nil => exact hs
  | cons w rest ih =>
    obtain ⟨hw, hrest⟩ := List.nodup_cons.mp hdue
    rw [List.foldl_cons]
    refine ih (hs.settle (hfresh w List.mem_cons_self) fun _ _ => lt_wake_of_look) hrest ?_
    intro w₁ hw₁ w' hw'
    rw [waiting_settle] at hw'
    rcases List.mem_append.mp hw' with hw' | hw'
    · exact hfresh w₁ (List.mem_cons_of_mem _ hw₁) w' hw'
    · intro heq
      have hid : w'.id = w.id := by
        split at hw'
        · rw [List.mem_singleton.mp hw']
        · cases hw'
      exact hw (List.mem_map.mpr ⟨w₁, hw₁, heq.symm.trans hid⟩)

/-- Whoever is due looks, and nobody is due afterwards. -/
theorem plays_wake (hdistinct : (s.waiting.map (·.id)).Nodup) :
    (∃ acts, s.play acts = some s.wake) ∧ s.wake.Awake := by
  unfold wake
  rw [List.partition_eq_filter_filter]
  have hdue : ((s.waiting.filter (·.wake ≤ s.now)).map (·.id)).Nodup :=
    hdistinct.sublist (List.filter_sublist.map _)
  have hne {w w' : Waiting} (hw : w ∈ s.waiting) (hw' : w' ∈ s.waiting)
      (hid : w'.id = w.id) : w' = w := List.inj_on_of_nodup_map hdistinct hw' hw hid
  constructor
  · refine ⟨_, (play_looks hdistinct hdue ?_).trans ?_⟩
    · intro w hw
      simpa using hw
    · -- Those that are not due are those whose number is not the number of one that is.
      have hrest : (s.waiting.filter fun w =>
          !((s.waiting.filter (·.wake ≤ s.now)).map (·.id)).contains w.id)
          = s.waiting.filter (not ∘ fun w => decide (w.wake ≤ s.now)) := by
        apply List.filter_congr
        intro w hw
        rw [Function.comp_apply]
        congr 1
        rw [Bool.eq_iff_iff, List.contains_iff_mem, decide_eq_true_eq]
        constructor
        · intro hmem
          obtain ⟨w', hw', hid⟩ := List.mem_map.mp hmem
          obtain ⟨hin, hwake⟩ := List.mem_filter.mp hw'
          rw [← hne hw hin hid]
          simpa using hwake
        · intro hwake
          exact List.mem_map_of_mem (List.mem_filter.mpr ⟨hw, by simpa using hwake⟩)
      rw [hrest]
  · have hbase : Awake
        { s with waiting := s.waiting.filter (not ∘ fun w => decide (w.wake ≤ s.now)) } := by
      refine ⟨hdistinct.sublist (List.filter_sublist.map _), ?_⟩
      intro w hw
      simpa using (List.mem_filter.mp hw).2
    refine hbase.looks hdue ?_
    intro w hw w' hw' hid
    obtain ⟨hin, hwake⟩ := List.mem_filter.mp hw
    obtain ⟨hin', hwake'⟩ := List.mem_filter.mp hw'
    rw [hne hin hin' hid] at hwake'
    simp_all

/-! ## Ticks -/

theorem play_ticks (k : Nat) (h : ∀ w ∈ s.waiting, s.now + k ≤ w.wake) :
    s.play (List.replicate k .tick) = some { s with now := s.now + k } := by
  induction k generalizing s with
  | zero => rfl
  | succ k ih =>
    have hact : s.act .tick = some { s with now := s.now + 1 } := by
      refine act_tick_eq_some.mpr ⟨?_, rfl⟩
      intro w hw
      have hle := h w hw
      omega
    have hrest : ∀ w ∈ s.waiting, s.now + 1 + k ≤ w.wake := by
      intro w hw
      have hle := h w hw
      omega
    rw [List.replicate_succ, play, hact, Option.bind_some, ih hrest, Nat.add_right_comm,
      Nat.add_assoc]

theorem nextWake_le (s : Session) (limit : Nat) : ∀ w ∈ s.waiting, s.nextWake limit ≤ w.wake := by
  unfold nextWake
  generalize s.waiting = l
  have hle (l : List Waiting) (t : Nat) : l.foldl (fun t w => min t w.wake) t ≤ t := by
    induction l generalizing t with
    | nil => exact Nat.le_refl t
    | cons w rest ih => exact Nat.le_trans (ih _) (Nat.min_le_left ..)
  induction l generalizing limit with
  | nil => nofun
  | cons w rest ih =>
    intro w' hw'
    rcases List.mem_cons.mp hw' with rfl | hw'
    · exact Nat.le_trans (hle rest _) (Nat.min_le_right ..)
    · exact ih _ w' hw'

/-- A session that is advanced plays, and no look is overdue afterwards. -/
theorem plays_advanceTo (hs : s.Awake) (limit : Nat) :
    (∃ acts, s.play acts = some (s.advanceTo limit)) ∧ (s.advanceTo limit).Awake := by
  induction s using advanceTo.induct limit with
  | case1 s hlt ih =>
    have hle (w : Waiting) (hw : w ∈ s.waiting) :
        max (s.now + 1) (s.nextWake limit) ≤ w.wake :=
      Nat.max_le.mpr ⟨hs.later w hw, s.nextWake_le limit w hw⟩
    obtain ⟨k, hk⟩ : ∃ k, max (s.now + 1) (s.nextWake limit) = s.now + k :=
      ⟨max (s.now + 1) (s.nextWake limit) - s.now, by omega⟩
    have hticks := play_ticks k fun w hw => hk ▸ hle w hw
    rw [← hk] at hticks
    obtain ⟨⟨looks, hlooks⟩, hawake⟩ :=
      plays_wake (s := { s with now := max (s.now + 1) (s.nextWake limit) }) hs.distinct
    obtain ⟨⟨acts, hacts⟩, hdone⟩ := ih hawake
    rw [advanceTo, if_pos hlt]
    refine ⟨⟨List.replicate k .tick ++ (looks ++ acts), ?_⟩, hdone⟩
    rw [play_append, hticks, Option.bind_some, play_append, hlooks, Option.bind_some, hacts]
  | case2 s hge =>
    rw [advanceTo, if_neg hge]
    exact ⟨⟨[], rfl⟩, hs⟩

theorem plays_advance (hs : s.Awake) (ticks : Nat) :
    (∃ acts, s.play acts = some (s.advance ticks)) ∧ (s.advance ticks).Awake :=
  plays_advanceTo hs (s.now + ticks)

/-! ## Whatever a session is asked to do -/

/-- What a session may be asked to do. -/
inductive Command
  | increment
  | decrement
  | start (cancelled : Bool)
  | cancel (id : Nat)
  | advance (ticks : Nat)

def obey (s : Session) : Command → Session
  | .increment => s.increment
  | .decrement => s.decrement
  | .start cancelled => s.start cancelled
  | .cancel id => s.cancel id
  | .advance ticks => s.advance ticks

theorem plays_obey (hnumbered : s.Numbered) (hs : s.Awake) (c : Command) :
    (∃ acts, s.play acts = some (s.obey c)) ∧ (s.obey c).Awake := by
  have hone {a : Act} {s' : Session} (h : s.act a = some s') : s.play [a] = some s' :=
    play_cons_eq_some.mpr ⟨s', h, rfl⟩
  cases c with
  | increment => exact ⟨⟨_, hone (a := .increment) rfl⟩, hs.distinct, hs.later⟩
  | decrement => exact ⟨⟨_, hone (a := .decrement) rfl⟩, hs.distinct, hs.later⟩
  | start cancelled =>
    refine ⟨⟨_, hone (a := .start cancelled) rfl⟩, ?_⟩
    have hstarted : ({ s with started := s.started + 1 } : Session).Awake :=
      ⟨hs.distinct, hs.later⟩
    refine hstarted.settle ?_ fun _ _ => lt_wake_of_check
    intro w hw
    exact Nat.ne_of_lt (hnumbered.waiting w hw)
  | cancel id =>
    refine ⟨⟨_, hone (a := .cancel id) rfl⟩, ?_⟩
    rw [obey, cancel_eq]
    exact hs.filter ..
  | advance ticks => exact plays_advance hs ticks

/-- Whatever a session is asked to do from the start is a list of acts. -/
theorem plays_obey_all (role partition : String) (config : Config) (commands : List Command) :
    ∃ acts, (new role partition config).play acts
      = some (commands.foldl obey (new role partition config)) := by
  have hrun (s : Session) (hnumbered : s.Numbered) (hs : s.Awake) :
      ∃ acts, s.play acts = some (commands.foldl obey s) := by
    induction commands generalizing s with
    | nil => exact ⟨[], rfl⟩
    | cons c rest ih =>
      obtain ⟨⟨acts, hacts⟩, hawake⟩ := plays_obey hnumbered hs c
      obtain ⟨acts', hacts'⟩ := ih _ (hnumbered.play hacts) hawake
      refine ⟨acts ++ acts', ?_⟩
      rw [play_append, hacts, Option.bind_some, hacts', List.foldl_cons]
  exact hrun _ (.new role partition config) (.new role partition config)

end Session

end StreamDispatch.Breaker
