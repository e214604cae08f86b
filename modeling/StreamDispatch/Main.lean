import StreamDispatch.Validator.Report

set_option autoImplicit false

/-! # The validator as a program

Reads the variables of the process and the files that a configuration may be in, and leaves the rest
to `Validator.run`. -/

open StreamDispatch

/-- The variables of the process, as far as they have a meaning. -/
def readVariables : IO Config.Variables := do
  let found ← Config.variableNames.filterMapM fun name => do
    return (← IO.getEnv name).map fun value => (name, value)
  return Dictionary.ofList found

/-- A tree with the file at a path, if there is one that can be read. -/
def withFile (directory : String) (t : FileTree) (path : String) : IO FileTree := do
  try
    let content ← IO.FS.readBinFile path
    match (t.makeDirectories directory).1.write path content.toList with
    | .ok t => return t
    | .error _ => return t
  catch _ => return t

def readFiles (args : List String) (vars : Config.Variables) : IO FileTree :=
  match Validator.Request.ofArguments args with
  | .validate o =>
    let directory := Validator.directoryFor o vars
    (Config.searchedPaths directory).foldlM (withFile directory) .empty
  | _ => return .empty

/-- Validates the configuration that the arguments and the variables name. -/
def main (args : List String) : IO UInt32 := do
  let vars ← readVariables
  let report := Validator.run args vars (← readFiles args vars)
  IO.print report.output
  IO.eprint report.errors
  return report.exitCode.toUInt32
