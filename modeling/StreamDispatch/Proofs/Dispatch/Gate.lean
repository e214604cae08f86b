import StreamDispatch.Proofs.Breaker.Check
import StreamDispatch.Proofs.Dispatch.Batch

set_option autoImplicit false

/-! # Gates and whom they admit

A gate never changes the way in which it admits batches. Whether it admits a batch depends on its
own level and on nothing else. -/

namespace StreamDispatch

/-- Whether a batch is admitted that arrives at a level. -/
def Admission.admits : Admission → Int → Bool
  | .free, _ => true
  | .guarded config, level => level < config.tripLevel

/-- Whether a batch is admitted that has been held back. -/
def Admission.releases : Admission → Int → Bool
  | .free, _ => true
  | .guarded config, level => level < config.warningLevel

namespace Gate

variable {g : Gate} {config : Breaker.Config} {now : Nat} {cancelled : Bool}

/-- How a gate admits batches. -/
def admission : Gate → Admission
  | .free _ => .free
  | .guarded b => .guarded b.config

@[simp] theorem admission_new (partition : String) (a : Admission) :
    (Gate.new partition a).admission = a := by
  cases a <;> rfl

@[simp] theorem admission_enter (g : Gate) : g.enter.admission = g.admission := by
  cases g <;> rfl

@[simp] theorem admission_leave (g : Gate) : g.leave.admission = g.admission := by
  cases g <;> rfl

@[simp] theorem admission_check (g : Gate) (now : Nat) (cancelled : Bool) :
    (g.check now cancelled).1.admission = g.admission := by
  cases g with
  | free t => rfl
  | guarded b => exact congrArg Admission.guarded (b.config_check now cancelled)

@[simp] theorem admission_look (g : Gate) (now : Nat) (cancelled : Bool) :
    (g.look now cancelled).1.admission = g.admission := by
  cases g with
  | free t => rfl
  | guarded b => exact congrArg Admission.guarded (b.config_look now cancelled)

/-- Whatever passes a guarded gate finds it below the trip level. -/
theorem lt_of_check (hg : g.admission = .guarded config)
    (hlevels : config.warningLevel < config.tripLevel)
    (h : (g.check now cancelled).2.1 = .passed) : g.level < config.tripLevel := by
  cases g with
  | free t => cases hg
  | guarded b =>
    cases hg
    by_contra hge
    have hstall := Breaker.check_of_ge hlevels (Int.not_lt.mp hge) now cancelled
    exact b.stall_ne_passed now cancelled b.level (hstall.symm.trans h)

theorem lt_of_look (hg : g.admission = .guarded config)
    (h : (g.look now cancelled).2.1 = .passed) : g.level < config.warningLevel := by
  cases g with
  | free t => cases hg
  | guarded b =>
    cases hg
    by_contra hge
    have hstall := Breaker.look_of_ge (Int.not_lt.mp hge) now cancelled
    exact b.stall_ne_passed now cancelled b.level (hstall.symm.trans h)

end Gate

namespace Batch

variable {d : Dispatcher} {l : Lease} {i : Instrumentation} {now : Nat} {b b' : Batch}
  {gate : Gate} {os : List Occurrence} {verdict : Gate × Breaker.Check × List Log.Line}

/-- A batch goes on only if the gate has let it pass. -/
theorem passed_of_judged (h : (b.judged d l now verdict).1.phase = .filling) :
    verdict.2.1 = .passed := by
  obtain ⟨gate, check, lines⟩ := verdict
  cases check with
  | passed => rfl
  | refused => cases h
  | stalled found wake => cases h

theorem gate_judged : (b.judged d l now verdict).2.1 = verdict.1 := rfl

/-- A batch never changes the way in which its gate admits batches. -/
theorem admission_of_step (h : b.step d l i now = some (b', gate, os)) :
    gate.admission = l.gate.admission := by
  unfold step at h
  split at h
  · obtain rfl : (b.judged d l now (l.gate.check now b.cancelled)).2.1 = gate := by
      rw [Option.some.inj h]
    rw [gate_judged, Gate.admission_check]
  · unfold stepStalled at h
    split at h
    · cases h
      rfl
    · obtain ⟨-, h⟩ := Option.ite_none_right_eq_some.mp h
      obtain rfl : (b.judged d l now (l.gate.look now false)).2.1 = gate := by
        rw [Option.some.inj h]
      rw [gate_judged, Gate.admission_look]
  · unfold stepFilling at h
    split at h
    · cases h
      rfl
    · obtain ⟨-, h⟩ := Option.ite_none_right_eq_some.mp h
      cases h
      rfl
  · unfold stepDraining at h
    split at h
    · cases h
      rfl
    · obtain ⟨-, h⟩ := Option.ite_none_right_eq_some.mp h
      cases h
      rfl
  · cases h

/-- A batch is admitted by a guarded gate only below the trip level. -/
theorem level_lt_of_admitted {config : Breaker.Config} (hgate : l.gate.admission = .guarded config)
    (hlevels : config.warningLevel < config.tripLevel) (hp : b.phase.isPending = true)
    (hp' : b'.phase = .filling) (h : b.step d l i now = some (b', gate, os)) :
    l.gate.level < config.tripLevel := by
  unfold step at h
  split at h
  · obtain rfl : (b.judged d l now (l.gate.check now b.cancelled)).1 = b' := by
      rw [Option.some.inj h]
    exact Gate.lt_of_check hgate hlevels (passed_of_judged hp')
  · unfold stepStalled at h
    split at h
    · cases h
      cases hp'
    · obtain ⟨-, h⟩ := Option.ite_none_right_eq_some.mp h
      obtain rfl : (b.judged d l now (l.gate.look now false)).1 = b' := by
        rw [Option.some.inj h]
      have hlt := Gate.lt_of_look hgate (passed_of_judged hp')
      omega
  · next hphase => simp [hphase, Phase.isPending] at hp
  · next hphase => simp [hphase, Phase.isPending] at hp
  · next hphase => simp [hphase, Phase.isPending] at hp

end Batch

end StreamDispatch
