import StreamDispatch.Config.Settings
import StreamDispatch.FileTree
import StreamDispatch.Json.Printer
import StreamDispatch.Poison.Report

set_option autoImplicit false

/-! # Keeping poison reports in files

A report is kept in a directory for its failure mode, its stream and its partition, as a file with
the payload whose name begins with the offset and ends with an identifier that no other report has.
Beside it lie a description of the report as JSON and, where there is an error, a file with the
error. The names come from outside, so every character that could lead elsewhere is replaced.

Log lines are given only where reporting is disabled. A directory writes lines of its own as well,
when it has been made and for each report that has or has not been kept, with the path in them; they
tell nothing that the results do not, and they are left out. -/

namespace StreamDispatch

/-- Why a report could not be kept. -/
structure PoisonError where
  name : String
  cause : String
  deriving DecidableEq, Repr

def PoisonError.message (e : PoisonError) : String :=
  s!"Failed to write poison message {e.name}: {e.cause}"

/-- A failure of the file system, and the path it happened at. -/
structure FileFailure where
  path : String
  error : FileError
  deriving DecidableEq, Repr

def FileFailure.toPoisonError (f : FileFailure) : PoisonError := ⟨f.path, f.error.kind⟩

/-! ## Where a report is kept -/

/-- The characters that would lead to another place. -/
def isSeparator (c : Char) : Bool := c == '/' || c == '\\' || c == ':'

/-- A name without characters that would lead to another place. -/
def safeName (name : String) : String :=
  let cleaned := String.ofList (name.toList.map fun c => if isSeparator c then '_' else c)
  if cleaned = "" ∨ cleaned = "." ∨ cleaned = ".." then "_" else cleaned

namespace PoisonReport

/-- The directories below the root in which a report is kept. -/
def directories (r : PoisonReport) : List String :=
  [r.mode.name, safeName r.context.stream, safeName r.context.partition]

def fileName (r : PoisonReport) (id : String) : String := safeName r.context.offset ++ "_" ++ id

def directory (r : PoisonReport) (root : String) : String := r.directories.foldl Path.join root

def path (r : PoisonReport) (root id : String) : String :=
  Path.join (r.directory root) (r.fileName id)

def description (r : PoisonReport) : Json :=
  .ofMembers
    [("failureMode", .string r.mode.name), ("context", .string r.context.text),
      ("messageProperties", .ofTexts r.headers)]

def utf8 (s : String) : Payload := s.toUTF8.toList

/-- The files that keep a report, in the order in which they are written. -/
def files (r : PoisonReport) (root id : String) : List (String × Payload) :=
  let path := r.path root id
  [(path, r.payload), (path ++ ".json", utf8 r.description.pretty)]
    ++ (r.error.map fun e => (path ++ "_exception", utf8 e)).toList

end PoisonReport

/-! ## Keeping it -/

/-- Writes files one after the other, until one cannot be written. -/
def FileTree.writeAll (t : FileTree) :
    List (String × Payload) → FileTree × Except FileFailure Unit
  | [] => (t, .ok ())
  | (path, content) :: rest =>
    match t.write path content with
    | .ok t => t.writeAll rest
    | .error e => (t, .error ⟨path, e⟩)

/-- Keeps a report under a root. What has been written before a failure stays. -/
def PoisonReport.store (r : PoisonReport) (root id : String) (t : FileTree) :
    FileTree × Except FileFailure Unit :=
  match t.makeDirectories (r.directory root) with
  | (t, .error e) => (t, .error ⟨r.directory root, e⟩)
  | (t, .ok _) => t.writeAll (r.files root id)

/-- Where reports go. -/
inductive PoisonStore
  /-- Nowhere; reporting is disabled. -/
  | none
  /-- Into files below a directory. -/
  | directory (root : String)
  deriving DecidableEq, Repr

namespace PoisonStore

/-- Opens a directory for reports, and makes it if there is nothing at its path. -/
def openDirectory (root : String) (t : FileTree) : FileTree × Except FileFailure PoisonStore :=
  if t.contains root then (t, .ok (.directory root))
  else
    match t.makeDirectories root with
    | (t, .ok _) => (t, .ok (.directory root))
    | (t, .error e) => (t, .error ⟨root, e⟩)

def ofSettings (s : PoisonSettings) (t : FileTree) : FileTree × Except FileFailure PoisonStore :=
  if s.enabled then openDirectory s.directory t else (t, .ok .none)

/-- What is logged when a store is opened; the line on a directory that has been made is left
out. -/
def settingsLines (s : PoisonSettings) : List Log.Line :=
  if s.enabled then [] else [Log.info "☠️ Poison reporting disabled" []]

def publish (s : PoisonStore) (r : PoisonReport) (id : String) (t : FileTree) :
    FileTree × Except FileFailure Unit :=
  match s with
  | .none => (t, .ok ())
  | .directory root => r.store root id t

/-- What is logged of a report; the lines on whether a directory has kept it are left out. -/
def publishLines (s : PoisonStore) (r : PoisonReport) : List Log.Line :=
  match s with
  | .none =>
    [Log.debug "Poison reporting disabled, dropping report"
      [("context", r.context.text), ("failure_mode", r.mode.name)]]
  | .directory _ => []

end PoisonStore

end StreamDispatch
