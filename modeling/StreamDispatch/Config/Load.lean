import StreamDispatch.Config.Document
import StreamDispatch.FileTree

set_option autoImplicit false

/-! # Loading a configuration

The environment and the directory of a configuration come from the caller or from the variables of
the process. The configuration is read from the first of two files that exists in the directory. -/

namespace StreamDispatch.Config

abbrev Variables := Dictionary String

def variableNames : List String := ["DISPATCHER_ENV", "APP_ENV", "DISPATCHER_CONFIG_DIR"]

def environmentOf (vars : Variables) : String :=
  ((vars.get? "DISPATCHER_ENV").or (vars.get? "APP_ENV")).getD "development"

def directoryOf (vars : Variables) : String :=
  (vars.get? "DISPATCHER_CONFIG_DIR").getD "config"

/-- Where a configuration is looked for in a directory. -/
def searchedPaths (directory : String) : List String :=
  [Path.join directory fileName, Path.join directory alternativeFileName]

def findFile (t : FileTree) (directory : String) : Except ConfigError String :=
  match (searchedPaths directory).find? (t.isFile ·) with
  | some path => .ok path
  | none => .error (.fileNotFound (searchedPaths directory))

def readText (t : FileTree) (path : String) : Except ConfigError String :=
  match t.read path with
  | .error e => .error (.unreadable path e.kind)
  | .ok content =>
    match String.fromUTF8? ⟨content.toArray⟩ with
    | some text => .ok text
    | none => .error (.unreadable path "stream did not contain valid UTF-8")

/-- The configuration of a directory in an environment, if it is usable. -/
def load (t : FileTree) (directory environment : String) : Except ConfigError Config := do
  let path ← findFile t directory
  let c ← parse (← readText t path) environment path
  c.check
  return c

/-- What is logged when a configuration is loaded, as far as loading succeeds. -/
def loadLines (t : FileTree) (directory environment : String) : List Log.Line :=
  let started := Log.debug "Loading configuration"
    [("environment", environment), ("directory", directory)]
  match findFile t directory with
  | .error _ => [started]
  | .ok path =>
    let found := Log.debug "Found configuration file" [("path", path)]
    let applied := match readText t path with
      | .error _ => []
      | .ok text =>
        match Yaml.Value.parse text with
        | .error _ => []
        | .ok document => environmentLines environment document
    let loaded := match load t directory environment with
      | .error _ => []
      | .ok c =>
        [Log.info "⚙️ Configuration loaded successfully"
          [("environment", environment), ("stream", c.stream.streamName),
            ("max_concurrency", toString c.stream.maxConcurrency),
            ("warning_level", toString c.breaker.warningLevel),
            ("trip_level", toString c.breaker.tripLevel)]]
    [started, found] ++ applied ++ loaded

end StreamDispatch.Config
