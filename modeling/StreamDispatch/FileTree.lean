import StreamDispatch.Message.Event

set_option autoImplicit false

/-! # Files and directories

The part of a file system that lies below the working directory, as a value: an entry for each
place, where a place is the list of the names that lead to it. What lies below the root is kept
apart, at the places that begin with a slash. A path is a text; it is walked name by name, and every
name but the last must lead to a directory. A dot names nothing; at the end of a path it asks for a
directory that is there. There is no way up from the working directory or the root. Files that exist
are never in the way of reading, and making directories never removes anything. -/

namespace StreamDispatch

/-- What lies at a place. -/
inductive FileEntry
  | directory
  | file (content : Payload)
  deriving DecidableEq, Repr, Inhabited

/-- Why something cannot be done with a path. -/
inductive FileError
  | notFound
  | notADirectory
  | isADirectory
  | alreadyExists
  | nameTooLong
  | forbiddenCharacter
  deriving DecidableEq, Repr, Inhabited

def FileError.kind : FileError → String
  | .notFound => "NotFound"
  | .notADirectory => "NotADirectory"
  | .isADirectory => "IsADirectory"
  | .alreadyExists => "AlreadyExists"
  | .nameTooLong => "InvalidFilename"
  | .forbiddenCharacter => "InvalidInput"

/-! ## Paths -/

namespace Path

/-- A name below a path. A name that begins with a slash is a path of its own. -/
def join (base name : String) : String :=
  if name.toList.head? = some '/' || base.isEmpty then name
  else if base.toList.getLast? = some '/' then base ++ name
  else base ++ "/" ++ name

/-- The names of which a path consists. A dot and an empty name mean nothing; a slash in front
stands for the root of the file system. -/
def names (path : String) : List String :=
  let parts := ((path.toList.splitOn '/').map String.ofList).filter fun n => n ≠ "" && n ≠ "."
  if path.toList.head? = some '/' then "/" :: parts else parts

def meansDirectory (path : String) : Bool :=
  match path.toList.reverse with
  | '/' :: _ => true
  | ['.'] => true
  | '.' :: '/' :: _ => true
  | _ => false

/-- Whether the last thing in a path is a dot, slashes apart. Such a path leads to the directory
that the rest of it names, and names nothing that could be made. -/
def endsInDot (path : String) : Bool :=
  match path.toList.reverse.dropWhile (· == '/') with
  | ['.'] => true
  | '.' :: '/' :: _ => true
  | _ => false

/-- The longest name, in bytes. -/
def maxName : Nat := 255

/-- The longest path, in bytes. -/
def maxPath : Nat := 4095

end Path

/-- The files and directories below the working directory. -/
structure FileTree where
  entries : List (List String × FileEntry)
  deriving DecidableEq, Repr, Inhabited

namespace FileTree

def empty : FileTree := ⟨[]⟩

/-- The places that exist whatever has been made: the working directory and the root. -/
def isGiven (place : List String) : Bool := place == [] || place == ["/"]

def find (place : List String) : List (List String × FileEntry) → Option FileEntry
  | [] => none
  | (p, e) :: rest => if p = place then some e else find place rest

def get? (t : FileTree) (place : List String) : Option FileEntry :=
  if isGiven place then some .directory else find place t.entries

/-- Puts something at a place, instead of what lay there. -/
def put (t : FileTree) (place : List String) (e : FileEntry) : FileTree :=
  ⟨(place, e) :: t.entries.filter (·.1 ≠ place)⟩

/-- What a put does to a look-up. -/
theorem find_filter_ne (place p : List String) (entries : List (List String × FileEntry))
    (h : p ≠ place) : find p (entries.filter (·.1 ≠ place)) = find p entries := by
  induction entries with
  | nil => rfl
  | cons head rest ih =>
    obtain ⟨q, e⟩ := head
    by_cases hq : q = place
    · subst hq
      rw [List.filter_cons_of_neg (by simp), ih]
      simp [find, Ne.symm h]
    · rw [List.filter_cons_of_pos (by simpa using hq)]
      simp only [find, ih]

theorem get?_put (t : FileTree) (place p : List String) (e : FileEntry)
    (hplace : isGiven place = false) :
    (t.put place e).get? p = if p = place then some e else t.get? p := by
  by_cases hp : p = place
  · subst hp; simp [get?, put, hplace, find]
  · simp only [get?, put, find, if_neg (Ne.symm hp), if_neg hp, find_filter_ne place p _ hp]

/-! ## Walking -/

def enter (place : List String) (name : String) : List String :=
  if name ≠ ".." then place ++ [name]
  else if isGiven place then place
  else place.dropLast

/-- Walks along names from a place. The last name need not lead to anything. -/
def walk (t : FileTree) (place : List String) : List String → Except FileError (List String)
  | [] => .ok place
  | name :: rest =>
    if Path.maxName < name.utf8ByteSize then .error .nameTooLong
    else
      let next := enter place name
      if rest.isEmpty then .ok next
      else
        match t.get? next with
        | none => .error .notFound
        | some (.file _) => .error .notADirectory
        | some .directory => t.walk next rest

def locate (t : FileTree) (path : String) : Except FileError (List String) :=
  if path.toList.contains '\x00' then .error .forbiddenCharacter
  else if Path.maxPath < path.utf8ByteSize then .error .nameTooLong
  else if path.isEmpty then .error .notFound
  else t.walk [] (Path.names path)

def status (t : FileTree) (path : String) : Except FileError FileEntry := do
  match t.get? (← t.locate path) with
  | none => .error .notFound
  | some .directory => return .directory
  | some (.file content) =>
    if Path.meansDirectory path then .error .notADirectory else return .file content

def contains (t : FileTree) (path : String) : Bool := (t.status path).isOk

def isDirectory (t : FileTree) (path : String) : Bool :=
  match t.status path with
  | .ok .directory => true
  | _ => false

def isFile (t : FileTree) (path : String) : Bool :=
  match t.status path with
  | .ok (.file _) => true
  | _ => false

def read (t : FileTree) (path : String) : Except FileError Payload := do
  match ← t.status path with
  | .file content => return content
  | .directory => .error .isADirectory

/-! ## Changing -/

/-- Makes a directory where there is nothing. A path that ends in a dot has to lead to a directory
that is there. -/
def makeDirectory (t : FileTree) (path : String) : Except FileError FileTree := do
  let place ← t.locate path
  match t.get? place with
  | some .directory => .error .alreadyExists
  | some (.file _) => .error (if Path.endsInDot path then .notADirectory else .alreadyExists)
  | none => if Path.endsInDot path then .error .notFound else return t.put place .directory

def ensureDirectory (t : FileTree) (path : String) : Except FileError FileTree :=
  match t.makeDirectory path with
  | .ok t => .ok t
  | .error e => if t.isDirectory path then .ok t else .error e

/-- Makes the directories of a chain of paths, of which each lies in the one after it. A directory
is made only if the one it lies in is missing. -/
def makeChain (t : FileTree) : List String → FileTree × Except FileError Unit
  | [] => (t, .ok ())
  | path :: parents =>
    match t.ensureDirectory path with
    | .ok t => (t, .ok ())
    | .error .notFound =>
      match t.makeChain parents with
      | (t, .error e) => (t, .error e)
      | (t, .ok _) =>
        match t.ensureDirectory path with
        | .ok t => (t, .ok ())
        | .error e => (t, .error e)
    | .error e => (t, .error e)

def pathOfNames (names : List String) : String :=
  match names with
  | "/" :: rest => "/" ++ String.intercalate "/" rest
  | names => String.intercalate "/" names

/-- A path and the paths that it lies in, innermost first, as far as they are not given. -/
def chain (path : String) : List String :=
  let names := Path.names path
  let parents := (List.range (names.length - 1)).reverse.map fun n =>
    pathOfNames (names.take (n + 1))
  if path.isEmpty then [] else path :: parents

/-- Makes a directory and those that it lies in, as far as they are missing. What has been made
stays when something cannot be made. -/
def makeDirectories (t : FileTree) (path : String) : FileTree × Except FileError Unit :=
  t.makeChain (chain path)

def write (t : FileTree) (path : String) (content : Payload) : Except FileError FileTree := do
  let place ← t.locate path
  match t.get? place with
  | some .directory => .error .isADirectory
  | some (.file _) =>
    if Path.meansDirectory path then .error .notADirectory else return t.put place (.file content)
  | none =>
    if Path.meansDirectory path then .error .isADirectory else return t.put place (.file content)

/-- The entries below a place, with the names that lead to them from there. -/
def below (t : FileTree) (place : List String) : List (List String × FileEntry) :=
  t.entries.filterMap fun (p, e) =>
    if place.isPrefixOf p && place.length < p.length then some (p.drop place.length, e) else none

end FileTree

end StreamDispatch
