import StreamDispatch.Config.Codec
import StreamDispatch.Yaml.Overlay
import StreamDispatch.Yaml.Value.Parser

set_option autoImplicit false

/-! # Configuration documents

A configuration is written as a YAML document. Besides the five sections it may hold a section for
each environment, with a configuration of its own that is laid over the common one when the
dispatcher runs in that environment. -/

namespace StreamDispatch.Config

open Yaml (Value)

/-- The environments whose sections are set aside before the configuration is decoded. -/
def environments : List String := ["development", "test", "production"]

/-- The document as it counts in an environment. -/
def forEnvironment (environment : String) (document : Value) : Value :=
  let merged := match document.get? environment with
    | some section_ => document.overlay section_
    | none => document
  environments.foldl (fun v name => v.remove name) merged

def environmentLines (environment : String) (document : Value) : List Log.Line :=
  match document.get? environment with
  | some _ => [Log.debug "Applying environment-specific overrides" [("environment", environment)]]
  | none => []

def ofDocument (environment : String) (document : Value) : Except Decode.Error Config :=
  decode (forEnvironment environment document)

/-- The configuration that a text from some source gives in an environment. -/
def parse (text environment source : String) : Except ConfigError Config :=
  match Value.parse text with
  | .error e => .error (.malformed source e.message)
  | .ok document =>
    match ofDocument environment document with
    | .error e => .error (.undecodable source (Value.errorMessage e))
    | .ok c => .ok c

end StreamDispatch.Config
