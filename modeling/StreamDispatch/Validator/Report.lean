import StreamDispatch.Config.Load
import StreamDispatch.Config.Printer
import StreamDispatch.Handler.Sample
import StreamDispatch.Validator.Arguments

set_option autoImplicit false

/-! # What the validator reports

The validator loads a configuration and tells about it. It ends with zero exactly if the
configuration can be loaded; otherwise it tells why not. -/

namespace StreamDispatch.Validator

/-- What a run of the validator leaves behind. -/
structure Report where
  exitCode : Nat
  output : String
  errors : String
  deriving DecidableEq, Repr, Inhabited

def lines (l : List String) : String := String.join (l.map (· ++ "\n"))

def heading (o : Options) : List String :=
  ["🔧 Validating Dispatcher Configuration", "Environment: " ++ o.environmentName]
    ++ (o.directory.map fun d => "Config Directory: " ++ d).toList ++ [""]

/-- Whether the trip level, taken as an unsigned word, is below the concurrency limit. -/
def tripsEarly (c : Config) : Bool := c.breaker.tripLevel.toUInt64 < c.stream.maxConcurrency

def summary (c : Config) : List String :=
  ["📬 Dispatcher",
    s!"   ✅ Stream: {c.stream.streamName}",
    s!"   ✅ Consumer group: {c.stream.consumerGroup}",
    s!"   ✅ Batch size: {c.stream.maxBatchSize} (prefetch {c.stream.prefetchCount})",
    s!"   ✅ Max concurrency per processor: {c.stream.maxConcurrency}",
    "🛡️  Circuit breaker",
    s!"   ✅ Warning level: {c.breaker.warningLevel}, trip level: {c.breaker.tripLevel}",
    s!"   ✅ Stall interval: {c.breaker.stallInterval.text}, log cooldown: "
      ++ c.breaker.logCooldown.text]
    ++ (if tripsEarly c then
      ["   ⚠️  Trip level is below the per-processor concurrency limit"] else [])
    ++ ["☠️  Poison",
      if c.poison.enabled then "   ✅ Directory: " ++ c.poison.directory
      else "   ℹ️  Poison reporting disabled",
      "📊 Instrumentation",
      s!"   ✅ Enabled: {c.instrumentation.enabled}",
      "",
      "🎉 All configuration validation checks passed!"]

def handlerTable (c : Config) : List String :=
  "📚 Handler registrations:" ::
    (Handler.samples c.handlers.longRunningTask).map fun (r, h) =>
      s!"  • {r.text} → {h.name} (timeout {h.timeout.text})"

def tell (command : Command) (c : Config) : String :=
  match command with
  | .all => lines (summary c)
  | .showConfig => c.write ++ "\n"
  | .handlers => lines (handlerTable c)

def directoryFor (o : Options) (vars : Config.Variables) : String :=
  o.directory.getD (Config.directoryOf vars)

def loadFor (o : Options) (vars : Config.Variables) (t : FileTree) :
    Except ConfigError Config :=
  Config.load t (directoryFor o vars) o.environmentName

def validate (o : Options) (vars : Config.Variables) (t : FileTree) : Report :=
  match loadFor o vars t with
  | .ok c =>
    ⟨0, lines (heading o ++ ["✅ Configuration loaded and validated"]) ++ tell o.command c, ""⟩
  | .error e => ⟨1, lines (heading o), lines ["❌ " ++ e.message]⟩

def usage : List String :=
  ["Validate dispatcher configuration files", "",
    "Usage: config-validator [OPTIONS] [COMMAND]", "",
    "Commands:",
    "  all       Validate the whole configuration",
    "  show      Print the resolved configuration",
    "  handlers  List the handler registrations", "",
    "Options:",
    "  -e, --environment <ENVIRONMENT>  [default: development]",
    "  -c, --config-dir <CONFIG_DIR>",
    "  -v, --verbose...",
    "  -h, --help",
    "  -V, --version"]

def run (args : List String) (vars : Config.Variables) (t : FileTree) : Report :=
  match Request.ofArguments args with
  | .validate o => validate o vars t
  | .help => ⟨0, lines usage, ""⟩
  | .version => ⟨0, lines ["config-validator 0.1.0"], ""⟩
  | .misuse => ⟨2, "", lines ("error: unexpected arguments" :: "" :: usage)⟩

end StreamDispatch.Validator
