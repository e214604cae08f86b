set_option autoImplicit false

/-! # Arguments of the validator

The validator takes options and then at most one command. An option that takes a value has it
attached or in the next argument, which must not look like an option. An option that takes a value
may be given once. The first argument that makes no sense ends the reading, and so does a request
for help. -/

namespace StreamDispatch.Validator

/-- What the validator does with a configuration. -/
inductive Command
  | all
  | showConfig
  | handlers
  deriving DecidableEq, Repr, Inhabited

/-- What the arguments ask for. -/
structure Options where
  environment : Option String
  directory : Option String
  verbosity : Nat
  command : Command
  deriving DecidableEq, Repr, Inhabited

/-- What becomes of the arguments. -/
inductive Request
  | validate (options : Options)
  | help
  | version
  /-- They make no sense. -/
  | misuse
  deriving DecidableEq, Repr, Inhabited

namespace Options

def none : Options := ⟨.none, .none, 0, .all⟩

def environmentName (o : Options) : String := o.environment.getD "development"

end Options

/-- The options with a value. -/
inductive ValueOption
  | environment
  | directory
  deriving DecidableEq, Repr

/-- The options with a value set, if it may be. -/
def ValueOption.set? (v : ValueOption) (value : String) (o : Options) : Option Options :=
  match v with
  | .environment => if o.environment.isSome then none else some { o with environment := some value }
  | .directory =>
    if o.directory.isSome || value.isEmpty then none else some { o with directory := some value }

/-- What a group of single letter options comes to. -/
inductive Letters
  | options (o : Options)
  /-- The last letter takes its value from the next argument. -/
  | needsValue (v : ValueOption) (o : Options)
  | stop (r : Request)
  deriving DecidableEq, Repr

def attached (v : ValueOption) (rest : List Char) (o : Options) : Letters :=
  match rest with
  | [] => .needsValue v o
  | c :: tail =>
    match v.set? (String.ofList (if c = '=' then tail else c :: tail)) o with
    | some o => .options o
    | none => .stop .misuse

def readLetters (o : Options) : List Char → Letters
  | [] => .options o
  | 'v' :: rest => readLetters { o with verbosity := o.verbosity + 1 } rest
  | 'h' :: _ => .stop .help
  | 'V' :: _ => .stop .version
  | 'e' :: rest => attached .environment rest o
  | 'c' :: rest => attached .directory rest o
  | _ :: _ => .stop .misuse

def looksLikeOption (arg : String) : Bool :=
  match arg.toList with
  | '-' :: _ :: _ => true
  | _ => false

def splitLong (arg : List Char) : String × Option String :=
  match arg.span (· ≠ '=') with
  | (name, []) => (String.ofList name, none)
  | (name, _ :: value) => (String.ofList name, some (String.ofList value))

def command? : String → Option Command
  | "all" => some .all
  | "show" => some .showConfig
  | "handlers" => some .handlers
  | _ => none

def readAfterCommand (o : Options) : List String → Request
  | [] => .validate o
  | ["--"] => .validate o
  | arg :: _ => if arg = "--help" || ['-', 'h'].isPrefixOf arg.toList then .help else .misuse

def readAfterHelp : List String → Request
  | [] => .help
  | [name] => if (command? name).isSome || name == "help" then .help else .misuse
  | _ => .misuse

def readArguments (o : Options) : List String → Request
  | [] => .validate o
  | arg :: rest =>
    let withValue (v : ValueOption) (o : Options) : Request :=
      match rest with
      | value :: rest =>
        if looksLikeOption value then .misuse
        else
          match v.set? value o with
          | some o => readArguments o rest
          | none => .misuse
      | [] => .misuse
    match arg.toList with
    | ['-', '-'] => if rest.isEmpty then .validate o else .misuse
    | '-' :: '-' :: long =>
      match splitLong long with
      | ("environment", none) => withValue .environment o
      | ("config-dir", none) => withValue .directory o
      | ("environment", some value) =>
        match ValueOption.environment.set? value o with
        | some o => readArguments o rest
        | none => .misuse
      | ("config-dir", some value) =>
        match ValueOption.directory.set? value o with
        | some o => readArguments o rest
        | none => .misuse
      | ("verbose", none) => readArguments { o with verbosity := o.verbosity + 1 } rest
      | ("help", none) => .help
      | ("version", none) => .version
      | _ => .misuse
    | '-' :: c :: letters =>
      match readLetters o (c :: letters) with
      | .options o => readArguments o rest
      | .needsValue v o => withValue v o
      | .stop r => r
    | _ =>
      if arg = "help" then readAfterHelp rest
      else
        match command? arg with
        | some command => readAfterCommand { o with command } rest
        | none => .misuse

def Request.ofArguments (args : List String) : Request := readArguments .none args

end StreamDispatch.Validator
