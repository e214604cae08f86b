import StreamDispatch.Config.Load
import StreamDispatch.Proofs.Decode.Record
import StreamDispatch.Proofs.Dispatch.Ownership

set_option autoImplicit false

/-! # The conditions on a configuration

A configuration is safe if it fulfils seven conditions, which are checked in a fixed order. The
check fails exactly with the error of the first condition that is violated (`check_eq`), and the
check stands before everything that is made of a configuration: a directory yields no configuration
that is not safe, and no dispatcher is made for one. A dispatcher that is made obeys its
configuration, whatever happens to the host that runs it (`Obeys`). -/

namespace StreamDispatch

namespace Config

/-! ## Conditions -/

/-- What must hold of a configuration. -/
inductive Condition
  | streamName
  | maxConcurrency
  | maxBatchSize
  | warningLevel
  | tripLevel
  | stallInterval
  | directory
  deriving DecidableEq, Repr

namespace Condition

/-- The conditions in the order in which they are checked. -/
def all : List Condition :=
  [streamName, maxConcurrency, maxBatchSize, warningLevel, tripLevel, stallInterval, directory]

def Holds (c : Config) : Condition → Prop
  | streamName => ∃ x ∈ c.stream.streamName.toList, Text.isBlank x = false
  | maxConcurrency => 1 ≤ c.stream.maxConcurrency.toNat
  | maxBatchSize => 1 ≤ c.stream.maxBatchSize.toNat
  | warningLevel => 0 < c.breaker.warningLevel.toInt
  | tripLevel => c.breaker.warningLevel.toInt < c.breaker.tripLevel.toInt
  | stallInterval => 1 ≤ c.breaker.stallIntervalMs.toNat
  | directory => c.poison.enabled = true → c.poison.directory ≠ ""

instance (c : Config) : DecidablePred (Holds c)
  | streamName => List.decidableBEx _ c.stream.streamName.toList
  | maxConcurrency => inferInstanceAs (Decidable (1 ≤ _))
  | maxBatchSize => inferInstanceAs (Decidable (1 ≤ _))
  | warningLevel => inferInstanceAs (Decidable (0 < _))
  | tripLevel => inferInstanceAs (Decidable (_ < _))
  | stallInterval => inferInstanceAs (Decidable (1 ≤ _))
  | directory => inferInstanceAs (Decidable (_ → _))

/-- The error that tells of a violated condition. -/
def error (c : Config) : Condition → ConfigError
  | streamName => .missingField "stream_name" "dispatcher configuration"
  | maxConcurrency => .invalidValue "max_concurrency_per_processor" "0" "must be at least 1"
  | maxBatchSize => .invalidValue "max_batch_size" "0" "must be at least 1"
  | warningLevel =>
    .invalidValue "circuit_breaker.warning_level" (toString c.breaker.warningLevel)
      "must be greater than 0"
  | tripLevel =>
    .invalidValue "circuit_breaker.trip_level" (toString c.breaker.tripLevel)
      s!"must be greater than warning_level ({c.breaker.warningLevel})"
  | stallInterval => .invalidValue "circuit_breaker.stall_interval_ms" "0" "must be greater than 0"
  | directory => .missingField "poison.directory" "poison configuration"

/-- The first of the conditions that is violated. -/
def firstViolated? (c : Config) : Option Condition := all.find? fun k => ¬k.Holds c

/-- A condition is violated, and none that is checked before it is. -/
def IsFirstViolated (c : Config) (k : Condition) : Prop :=
  ¬k.Holds c ∧ ∃ before after, all = before ++ k :: after ∧ ∀ k' ∈ before, k'.Holds c

theorem mem_all (k : Condition) : k ∈ all := by cases k <;> decide

theorem firstViolated?_eq_some_iff {c : Config} {k : Condition} :
    firstViolated? c = some k ↔ IsFirstViolated c k := by
  simp [firstViolated?, IsFirstViolated, List.find?_eq_some_iff_append]

theorem firstViolated?_eq_none_iff {c : Config} :
    firstViolated? c = none ↔ ∀ k : Condition, k.Holds c := by
  simp [firstViolated?, mem_all]

end Condition

variable {c : Config}

open Condition (firstViolated? IsFirstViolated)

theorem not_one_le_toNat (n : UInt64) : ¬1 ≤ n.toNat ↔ n = 0 := by
  rw [← UInt64.toNat_inj, UInt64.toNat_zero]
  omega

theorem not_lt_toInt (m n : Int64) : ¬m.toInt < n.toInt ↔ n ≤ m := by
  rw [Int64.le_iff_toInt_le, Int.not_lt]

/-- The check is a search for the first condition that is violated. -/
theorem check_eq (c : Config) :
    c.check = match firstViolated? c with
      | some k => .error (k.error c)
      | none => .ok () := by
  have hname : ¬Condition.streamName.Holds c ↔ Text.isBlankText c.stream.streamName = true := by
    simp [Condition.Holds, Text.isBlankText]
  have hwidth : ¬Condition.maxConcurrency.Holds c ↔ c.stream.maxConcurrency = 0 :=
    not_one_le_toNat _
  have hsize : ¬Condition.maxBatchSize.Holds c ↔ c.stream.maxBatchSize = 0 :=
    not_one_le_toNat _
  have hwarning : ¬Condition.warningLevel.Holds c ↔ c.breaker.warningLevel ≤ 0 :=
    not_lt_toInt 0 _
  have htrip : ¬Condition.tripLevel.Holds c ↔ c.breaker.tripLevel ≤ c.breaker.warningLevel :=
    not_lt_toInt _ _
  have hstall : ¬Condition.stallInterval.Holds c ↔ c.breaker.stallIntervalMs = 0 :=
    not_one_le_toNat _
  have hdirectory : ¬Condition.directory.Holds c ↔
      c.poison.enabled = true ∧ c.poison.directory = "" := by
    simp [Condition.Holds]
  simp only [check, firstViolated?, Condition.all, List.find?_cons, List.find?_nil, hname, hwidth,
    hsize, hwarning, htrip, hstall, hdirectory]
  split_ifs <;> simp [*, Condition.error]

theorem check_eq_ok_iff_holds : c.check = .ok () ↔ ∀ k : Condition, k.Holds c := by
  rw [check_eq, ← Condition.firstViolated?_eq_none_iff]
  cases firstViolated? c <;> simp

/-- A configuration that is not safe fails with the error of its first violated condition. -/
theorem check_of_isFirstViolated {k : Condition} (hk : IsFirstViolated c k) :
    c.check = .error (k.error c) := by
  rw [check_eq, Condition.firstViolated?_eq_some_iff.mpr hk]

/-- One of the violated conditions is the first. -/
theorem exists_isFirstViolated {k : Condition} (hk : ¬k.Holds c) : ∃ k, IsFirstViolated c k := by
  cases hfirst : firstViolated? c with
  | none => exact absurd (Condition.firstViolated?_eq_none_iff.mp hfirst k) hk
  | some k => exact ⟨k, Condition.firstViolated?_eq_some_iff.mp hfirst⟩

/-! ## Loading -/

/-- What is loaded from a directory is what the file says, and it is safe. -/
theorem load_eq_ok_iff {t : FileTree} {directory environment : String} :
    load t directory environment = .ok c ↔
      (∃ path text, findFile t directory = .ok path ∧ readText t path = .ok text
        ∧ parse text environment path = .ok c) ∧ ∀ k : Condition, k.Holds c := by
  rw [← check_eq_ok_iff_holds]
  simp only [load, Decode.bind_eq_ok_iff]
  constructor
  · rintro ⟨path, hpath, text, htext, c', hparse, ⟨⟩, hcheck, hc⟩
    cases hc
    exact ⟨⟨path, text, hpath, htext, hparse⟩, hcheck⟩
  · rintro ⟨⟨path, text, hpath, htext, hparse⟩, hcheck⟩
    exact ⟨path, hpath, text, htext, c, hparse, (), hcheck, rfl⟩

end Config

/-! ## Dispatchers of a configuration -/

/-- A dispatcher does what a configuration says: every processor that it makes has the stream and
the width of the configuration, and a breaker of its own with these very thresholds and delays,
which keeps them whatever happens to the host. -/
structure Dispatcher.Obeys (d : Dispatcher) (c : Config) : Prop where
  stream_eq : d.stream = c.stream.streamName
  width_eq : d.width = c.stream.maxConcurrency.toNat
  opened : ∀ (h : Host) partition checkpoint, h.dispatcher = d →
    ∃ l : Lease, (h.openPartition partition checkpoint).leases = h.leases ++ [l]
      ∧ l.gate = .guarded (.new Breaker.processorRole partition
        ⟨c.breaker.warningLevel.toInt, c.breaker.tripLevel.toInt,
          .ofMillis c.breaker.stallIntervalMs.toNat, .ofMillis c.breaker.logCooldownMs.toNat⟩)
  kept : ∀ i acts, ((Host.new d i).after acts).dispatcher = d
    ∧ ∀ l ∈ ((Host.new d i).after acts).leases, ∃ b, l.gate = .guarded b
      ∧ b.config = ⟨c.breaker.warningLevel.toInt, c.breaker.tripLevel.toInt,
        .ofMillis c.breaker.stallIntervalMs.toNat, .ofMillis c.breaker.logCooldownMs.toNat⟩

namespace Dispatcher

open Config (Condition)

variable {c : Config} {resolver : Resolver} {sink : Sink} {d : Dispatcher}

/-- No dispatcher is made for a configuration that is not safe. -/
theorem ofConfig_of_isFirstViolated {k : Condition} (hk : Condition.IsFirstViolated c k) :
    ofConfig c resolver sink = .error (.configuration (k.error c).message) := by
  rw [ofConfig, Config.check_of_isFirstViolated hk]

theorem ofConfig_of_holds (hc : ∀ k : Condition, k.Holds c) :
    ∃ d, ofConfig c resolver sink = .ok d := by
  rw [ofConfig, Config.check_eq_ok_iff_holds.mpr hc]
  exact ⟨_, rfl⟩

theorem holds_of_ofConfig (hd : ofConfig c resolver sink = .ok d) (k : Condition) : k.Holds c := by
  by_contra hk
  obtain ⟨k, hk⟩ := Config.exists_isFirstViolated hk
  rw [ofConfig_of_isFirstViolated hk] at hd
  cases hd

theorem eq_of_ofConfig (hd : ofConfig c resolver sink = .ok d) :
    d = ⟨c.stream.streamName, c.stream.maxConcurrency.toNat, .guarded c.breaker.toConfig, resolver,
      sink⟩ := by
  unfold ofConfig at hd
  split at hd
  · cases hd
  · exact (Except.ok.inj hd).symm

/-- A dispatcher that is made of a configuration obeys it. -/
theorem obeys_of_ofConfig (hd : ofConfig c resolver sink = .ok d) : d.Obeys c := by
  have hwidth : 1 ≤ c.stream.maxConcurrency.toNat := holds_of_ofConfig hd .maxConcurrency
  have hadmission : d.admission = .guarded c.breaker.toConfig := by rw [eq_of_ofConfig hd]
  exact {
    stream_eq := by rw [eq_of_ofConfig hd]
    width_eq := by
      rw [eq_of_ofConfig hd]
      exact Nat.max_eq_right hwidth
    opened := fun h partition checkpoint hdispatcher =>
      ⟨_, rfl, by rw [hdispatcher, hadmission]; rfl⟩
    kept := by
      intro i acts
      have hreach := Host.reaches_after (.new d i) acts
      have hdispatcher := Host.dispatcher_of_reaches hreach
      refine ⟨hdispatcher, fun l hl => ?_⟩
      obtain ⟨n, hn⟩ := List.mem_iff_getElem?.mp hl
      have hgate := (Host.tenured_of_reaches hreach).admission n l hn
      rw [hdispatcher, hadmission] at hgate
      cases hg : l.gate with
      | free tally =>
        rw [hg] at hgate
        cases hgate
      | guarded b =>
        rw [hg] at hgate
        exact ⟨b, rfl, Admission.guarded.inj hgate⟩ }

end Dispatcher

end StreamDispatch
