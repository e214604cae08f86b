import Mathlib.Data.List.TakeDrop
import Mathlib.Data.List.TakeWhile
import StreamDispatch.Proofs.Config.Conditions
import StreamDispatch.Validator.Report

set_option autoImplicit false

/-! # The verdict of the validator

The loader, the dispatcher and the validator agree on one predicate. Whatever the arguments are that
the validator understands, it ends with zero exactly if the configuration that they point to can be
loaded, and such a configuration is safe; every other one is turned down by the dispatcher with the
first condition that it violates (`only_safe_configurations`). -/

namespace StreamDispatch.Validator

/-! ## Arguments as they are written -/

/-- The ways in which an option is given its value. -/
inductive Form
  /-- By its letter, with the value in the next argument. -/
  | letter
  /-- By its word, with the value in the next argument. -/
  | word
  /-- By its word, with the value in the same argument. -/
  | joined
  deriving DecidableEq, Repr

def ValueOption.letter : ValueOption → String
  | environment => "-e"
  | directory => "-c"

def ValueOption.word : ValueOption → String
  | environment => "--environment"
  | directory => "--config-dir"

def Form.write (v : ValueOption) (value : String) : Form → List String
  | letter => [v.letter, value]
  | word => [v.word, value]
  | joined => [v.word ++ "=" ++ value]

/-- Whether a value may be given. A directory must have a name, and a value in an argument of its
own must not look like an option. -/
def Form.Admits (v : ValueOption) (value : String) (f : Form) : Prop :=
  (f = joined ∨ looksLikeOption value = false) ∧ (v = .directory → value ≠ "")

/-- An option with the value that it is given, if it is. -/
def written (v : ValueOption) : Option (Form × String) → List String
  | some (f, value) => f.write v value
  | none => []

def Command.name : Command → String
  | all => "all"
  | showConfig => "show"
  | handlers => "handlers"

variable {v : ValueOption} {value : String} {o o' : Options} {f : Form} {rest : List String}

/-- A word without a value ends where its argument does. -/
theorem splitLong_of_notMem {name : List Char} (hname : '=' ∉ name) :
    splitLong name = (String.ofList name, none) := by
  have hall (x : Char) (hx : x ∈ name) : decide (x ≠ '=') = true :=
    decide_eq_true (ne_of_mem_of_not_mem hx hname)
  rw [splitLong, List.span_eq_takeWhile_dropWhile, List.takeWhile_eq_self_iff.mpr hall,
    List.dropWhile_eq_nil_iff.mpr hall]

/-- A word with a value ends at the first equals sign. -/
theorem splitLong_append {name : List Char} (hname : '=' ∉ name) (value : List Char) :
    splitLong (name ++ '=' :: value) = (String.ofList name, some (String.ofList value)) := by
  have hall (x : Char) (hx : x ∈ name) : decide (x ≠ '=') = true :=
    decide_eq_true (ne_of_mem_of_not_mem hx hname)
  rw [splitLong, List.span_eq_takeWhile_dropWhile, List.takeWhile_append_of_pos hall,
    List.dropWhile_append_of_pos hall, List.takeWhile_cons_of_neg (by simp), List.append_nil,
    List.dropWhile_cons_of_neg (by simp)]

/-- An option that may be set is read with the value that is written. -/
theorem readArguments_write (hf : f.Admits v value) (hset : v.set? value o = some o') :
    readArguments o (f.write v value ++ rest) = readArguments o' rest := by
  cases f with
  | letter =>
    have hvalue : looksLikeOption value = false := by simpa [Form.Admits] using hf.1
    cases v <;>
      simp [Form.write, ValueOption.letter, readArguments, readLetters, attached, hvalue, hset]
  | word =>
    have hvalue : looksLikeOption value = false := by simpa [Form.Admits] using hf.1
    have hname : splitLong (v.word.toList.drop 2) = (String.ofList (v.word.toList.drop 2), none) :=
      splitLong_of_notMem (by cases v <;> decide)
    cases v <;> simp [ValueOption.word] at hname <;>
      simp [Form.write, ValueOption.word, readArguments, hname, hvalue, hset]
  | joined =>
    have hname : splitLong (v.word.toList.drop 2 ++ '=' :: value.toList)
        = (String.ofList (v.word.toList.drop 2), some (String.ofList value.toList)) :=
      splitLong_append (by cases v <;> decide) _
    cases v <;> simp [ValueOption.word] at hname <;>
      simp [Form.write, ValueOption.word, readArguments, hname, hset]

/-- Arguments are read as they are written: the options that are given, and then the command. -/
theorem ofArguments_written {e d : Option (Form × String)} (command : Option Command)
    (he : ∀ x ∈ e, x.1.Admits .environment x.2) (hd : ∀ x ∈ d, x.1.Admits .directory x.2) :
    Request.ofArguments
        (written .environment e ++ written .directory d ++ (command.map Command.name).toList)
      = .validate ⟨e.map Prod.snd, d.map Prod.snd, 0, command.getD .all⟩ := by
  have henvironment (rest : List String) : readArguments .none (written .environment e ++ rest)
      = readArguments { Options.none with environment := e.map Prod.snd } rest := by
    cases e with
    | none => rfl
    | some x => exact readArguments_write (he x rfl) rfl
  have hdirectory (o : Options) (ho : o.directory = none) (rest : List String) :
      readArguments o (written .directory d ++ rest)
        = readArguments { o with directory := d.map Prod.snd } rest := by
    cases d with
    | none => rw [Option.map_none, ← ho]; rfl
    | some x =>
      have hname : x.2 ≠ "" := (hd x rfl).2 rfl
      exact readArguments_write (hd x rfl) (by simp [ValueOption.set?, ho, hname])
  have hcommand (o : Options) (ho : o.command = .all) :
      readArguments o (command.map Command.name).toList
        = .validate { o with command := command.getD .all } := by
    cases command with
    | none => rw [Option.getD_none, ← ho]; simp [readArguments]
    | some k => cases k <;> simp [Command.name, readArguments, command?, readAfterCommand]
  rw [Request.ofArguments, List.append_assoc, henvironment, hdirectory _ rfl, hcommand _ rfl]
  rfl

/-! ## How a run ends -/

/-- A run ends with zero exactly if the configuration can be loaded, and with one if it cannot. -/
theorem exitCode_eq {args : List String} (vars : Config.Variables) (t : FileTree)
    (ho : Request.ofArguments args = .validate o) :
    (run args vars t).exitCode
      = if (Config.load t (directoryFor o vars) o.environmentName).isOk then 0 else 1 := by
  rw [run, ho]
  simp only [validate, loadFor]
  cases Config.load t (directoryFor o vars) o.environmentName <;> rfl

theorem exitCode_eq_zero_iff {args : List String} (vars : Config.Variables) (t : FileTree)
    (ho : Request.ofArguments args = .validate o) : (run args vars t).exitCode = 0 ↔
      ∃ c, Config.load t (directoryFor o vars) o.environmentName = .ok c := by
  rw [exitCode_eq vars t ho]
  cases Config.load t (directoryFor o vars) o.environmentName <;> simp [Except.isOk, Except.toBool]

/-- Whatever is loaded is safe, and a dispatcher is made for it that obeys it. Of a configuration
that is not safe, wherever it comes from, no dispatcher is made, and the error tells of the first
condition that it violates. And the validator tells whether a configuration can be loaded: for all
arguments that it understands, however the options and the command are written. -/
theorem only_safe_configurations :
    (∀ t directory environment c, Config.load t directory environment = .ok c →
        (∀ k : Config.Condition, k.Holds c)
          ∧ ∀ resolver sink, ∃ d, Dispatcher.ofConfig c resolver sink = .ok d ∧ d.Obeys c)
      ∧ (∀ c, (∃ k : Config.Condition, ¬k.Holds c) →
        ∃ k, Config.Condition.IsFirstViolated c k ∧ ∀ resolver sink,
          Dispatcher.ofConfig c resolver sink = .error (.configuration (k.error c).message))
      ∧ (∀ args o vars t, Request.ofArguments args = .validate o →
        ((run args vars t).exitCode = 0 ↔
            ∃ c, Config.load t (directoryFor o vars) o.environmentName = .ok c)
          ∧ ((run args vars t).exitCode ≠ 0 → (run args vars t).exitCode = 1))
      ∧ ∀ (e d : Option (Form × String)) (command : Option Command),
        (∀ x ∈ e, x.1.Admits .environment x.2) → (∀ x ∈ d, x.1.Admits .directory x.2) →
          Request.ofArguments (written .environment e ++ written .directory d
              ++ (command.map Command.name).toList)
            = .validate ⟨e.map Prod.snd, d.map Prod.snd, 0, command.getD .all⟩ := by
  refine ⟨?_, ?_, ?_, fun e d command he hd => ofArguments_written command he hd⟩
  · intro t directory environment c hload
    have hsafe := (Config.load_eq_ok_iff.mp hload).2
    refine ⟨hsafe, fun resolver sink => ?_⟩
    obtain ⟨d, hd⟩ := Dispatcher.ofConfig_of_holds hsafe
    exact ⟨d, hd, Dispatcher.obeys_of_ofConfig hd⟩
  · rintro c ⟨k, hk⟩
    obtain ⟨k, hfirst⟩ := Config.exists_isFirstViolated hk
    exact ⟨k, hfirst, fun resolver sink => Dispatcher.ofConfig_of_isFirstViolated hfirst⟩
  · intro args o vars t ho
    refine ⟨exitCode_eq_zero_iff vars t ho, fun hne => ?_⟩
    rw [exitCode_eq vars t ho] at hne ⊢
    split at hne
    · exact absurd rfl hne
    · next hnot => rw [if_neg hnot]

/-- A directory with a configuration that names its stream. -/
def sampleTree : FileTree :=
  ⟨[(["config"], .directory),
    (["config", "dispatcher-config.yml"], .file "dispatcher: {stream_name: orders}".toUTF8.toList)]⟩

/-- A configuration that violates two conditions. -/
def unsafeSample : Config where
  stream := .named "orders"
  breaker := { BreakerSettings.default with tripLevel := 200, stallIntervalMs := 0 }
  poison := .default
  instrumentation := .default
  handlers := .default

theorem only_safe_configurations_sample :
    (∃ c, Config.load sampleTree "config" "test" = .ok c ∧ ∀ k : Config.Condition, k.Holds c)
      ∧ (∃ k, Config.Condition.IsFirstViolated unsafeSample k)
      ∧ (run ["--environment=-e", "-c", "config", "show"] .empty sampleTree).exitCode = 0
      ∧ (run ["handlers"] .empty .empty).exitCode = 1 := by
  obtain ⟨hload, hviolated, hexit, hwritten⟩ := only_safe_configurations
  have hloaded (environment : String)
      (h : (Config.load sampleTree "config" environment).isOk = true) :
      ∃ c, Config.load sampleTree "config" environment = .ok c := by
    cases hc : Config.load sampleTree "config" environment with
    | error e => rw [hc] at h; cases h
    | ok c => exact ⟨c, rfl⟩
  refine ⟨?_, ?_, ?_, ?_⟩
  · obtain ⟨c, hc⟩ := hloaded "test" (by decide +kernel)
    exact ⟨c, hc, (hload _ _ _ c hc).1⟩
  · obtain ⟨k, hk, -⟩ := hviolated unsafeSample ⟨.tripLevel, by decide +kernel⟩
    exact ⟨k, hk⟩
  · have ho := hwritten (some (.joined, "-e")) (some (.letter, "config")) (some .showConfig)
      (by rintro x ⟨⟩; exact ⟨.inl rfl, nofun⟩)
      (by rintro x ⟨⟩; exact ⟨.inr (by decide +kernel), fun _ => by decide⟩)
    exact (hexit _ _ .empty sampleTree ho).1.mpr (hloaded "-e" (by decide +kernel))
  · have ho := hwritten none none (some .handlers) nofun nofun
    refine (hexit _ _ .empty .empty ho).2 fun hzero => ?_
    obtain ⟨c, hc⟩ := (hexit _ _ .empty .empty ho).1.mp hzero
    cases hc

end StreamDispatch.Validator
