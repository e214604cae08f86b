import StreamDispatch.Breaker

set_option autoImplicit false

/-! # One check, one look

A check passes below the trip level, and a check that stalls passes when it looks and finds the
level below the warning level. In any other case the check stalls, for one tick at least, unless it
is cancelled. -/

namespace StreamDispatch.Breaker

variable {b : Breaker} {now wake : Nat} {cancelled : Bool} {found : Int}

/-! ## The configuration stays -/

@[simp] theorem config_check (b : Breaker) (now : Nat) (cancelled : Bool) :
    (b.check now cancelled).1.config = b.config := by
  unfold check
  cases b.state with
  | closed => rfl
  | warning => simp only; split <;> rfl
  | tripped => rfl

@[simp] theorem config_look (b : Breaker) (now : Nat) (cancelled : Bool) :
    (b.look now cancelled).1.config = b.config := by
  unfold look
  split
  · rfl
  · simp only
    split <;> rfl

/-! ## Which checks pass -/

theorem state_eq_tripped (hlevels : b.config.warningLevel < b.config.tripLevel)
    (h : b.config.tripLevel ≤ b.level) : b.state = .tripped := by
  rw [state, Config.classify, if_neg (by omega), if_neg (by omega)]

/-- At the trip level or above a check stalls, unless it is cancelled. -/
theorem check_of_ge (hlevels : b.config.warningLevel < b.config.tripLevel)
    (h : b.config.tripLevel ≤ b.level) (now : Nat) (cancelled : Bool) :
    (b.check now cancelled).2.1 = (b.stall now cancelled b.level).1 := by
  rw [check, state_eq_tripped hlevels h]

/-- Below the warning level a check that stalls is released. -/
theorem look_of_lt (h : b.level < b.config.warningLevel) (now : Nat) (cancelled : Bool) :
    (b.look now cancelled).2.1 = .passed := by
  rw [look, if_pos h]

/-- At the warning level or above it stalls further, unless it is cancelled. -/
theorem look_of_ge (h : b.config.warningLevel ≤ b.level) (now : Nat) (cancelled : Bool) :
    (b.look now cancelled).2.1 = (b.stall now cancelled b.level).1 := by
  rw [look, if_neg (Int.not_lt.mpr h)]
  dsimp only
  split <;> rfl

theorem stall_ne_passed (b : Breaker) (now : Nat) (cancelled : Bool) (level : Int) :
    (b.stall now cancelled level).1 ≠ .passed := by
  unfold stall
  split <;> nofun

/-! ## How long a check stalls -/

theorem nextLook_eq {interval : Nat} (hinterval : b.config.stallInterval = .ofMillis interval)
    (hpos : 1 ≤ interval) (now : Nat) : b.nextLook now = now + interval := by
  rw [nextLook, hinterval, Duration.ticks_ofMillis, Nat.max_eq_right hpos]

/-- A check that stalls waits for a later tick. -/
theorem lt_wake_of_stall {level : Int} (h : (b.stall now cancelled level).1 = .stalled found wake) :
    now < wake := by
  unfold stall at h
  split at h
  · cases h
  · cases h
    unfold nextLook
    omega

theorem lt_wake_of_check (h : (b.check now cancelled).2.1 = .stalled found wake) : now < wake := by
  unfold check at h
  split at h
  · cases h
  · split at h <;> cases h
  · exact lt_wake_of_stall h

theorem lt_wake_of_look (h : (b.look now cancelled).2.1 = .stalled found wake) : now < wake := by
  rcases Int.lt_or_le b.level b.config.warningLevel with hlt | hge
  · rw [look_of_lt hlt] at h
    cases h
  · rw [look_of_ge hge] at h
    exact lt_wake_of_stall h

end StreamDispatch.Breaker
