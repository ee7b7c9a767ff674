import ClassEngine.Files.Pathname

/-!
# File trees

A tree holds files and directories under absolute lists of names, and a current
directory from which relative paths start.  A path is followed name by name
through existing directories, so `..` after a missing name is refused where the
lexical normal form would drop both.
-/

namespace ClassEngine.Files

inductive Node where
  | file (bytes : List UInt8)
  | directory
  deriving DecidableEq, Repr

structure Tree where
  entries : List (List String × Node)
  current : List String

inductive Refusal where
  | missing
  | notDirectory
  | isDirectory
  | nameTooLong
  | invalid
  deriving DecidableEq, Repr

def Refusal.message : Refusal → String
  | .missing => "no such file or directory"
  | .notDirectory => "not a directory"
  | .isDirectory => "is a directory"
  | .nameTooLong => "file name too long"
  | .invalid => "invalid argument"

structure FileError where
  attempt : String
  path : String
  cause : Refusal
  deriving DecidableEq, Repr

def FileError.message (e : FileError) : String :=
  s!"{e.attempt} {e.path}: {e.cause.message}"

namespace Tree

def nameLimit : Nat := 255
def pathLimit : Nat := 4095

def node? (t : Tree) (place : List String) : Option Node :=
  if place.isEmpty then some .directory
  else (t.entries.find? (·.1 = place)).map (·.2)

/-- Follows names from a place; every place that is left must be a directory. -/
def follow (t : Tree) (place : List String) : List String → Except Refusal (List String)
  | [] => .ok place
  | name :: rest =>
    match t.node? place with
    | none => .error .missing
    | some (.file _) => .error .notDirectory
    | some .directory =>
      if name = "" ∨ name = "." then t.follow place rest
      else if name = ".." then t.follow place.dropLast rest
      else if nameLimit < name.utf8ByteSize then .error .nameTooLong
      else t.follow (place ++ [name]) rest

def begin (t : Tree) (path : String) : Except Refusal (List String × List String) :=
  if path.toList.contains '\x00' then .error .invalid
  else if path = "" then .error .missing
  else if pathLimit < path.utf8ByteSize then .error .nameTooLong
  else .ok (if Pathname.isRooted path then [] else t.current, Text.split '/' path)

def locate (t : Tree) (path : String) : Except Refusal (List String × Node) := do
  let (start, names) ← t.begin path
  let place ← t.follow start names
  match t.node? place with
  | some node => .ok (place, node)
  | none => .error .missing

def stat (t : Tree) (path : String) : Except FileError Node :=
  match t.locate path with
  | .ok (_, node) => .ok node
  | .error cause => .error ⟨"stat", path, cause⟩

/-- A directory can be opened but not read. -/
def read (t : Tree) (path : String) : Except FileError (List UInt8) :=
  match t.locate path with
  | .ok (_, .file bytes) => .ok bytes
  | .ok (_, .directory) => .error ⟨"read", path, .isDirectory⟩
  | .error cause => .error ⟨"open", path, cause⟩

/-- The place a file is written to: its directory exists and it is none itself.  A path
that ends with a slash is taken for a directory. -/
def placeFor (t : Tree) (path : String) : Except Refusal (List String) := do
  let (start, written) ← t.begin path
  let names := (written.reverse.dropWhile (· = "")).reverse
  let name := names.getLast?.getD ""
  let directory ← t.follow start (names.dropLast ++ ["."])
  if names ≠ written ∨ name = "." ∨ name = ".." then throw .isDirectory
  if nameLimit < name.utf8ByteSize then throw .nameTooLong
  let place := directory ++ [name]
  if t.node? place = some .directory then throw .isDirectory
  return place

def add (t : Tree) (place : List String) (node : Node) : Tree :=
  let above := (List.range place.length).map place.take
  let created := (above.filter fun p => (t.node? p).isNone).map (·, Node.directory)
  { t with entries := (place, node) :: created ++ t.entries.filter (·.1 ≠ place) }

/-- The tree that also has the file, in place of one of the same path. -/
def write (t : Tree) (path : String) (bytes : List UInt8) : Except FileError Tree :=
  match t.placeFor path with
  | .ok place => .ok (t.add place (.file bytes))
  | .error cause => .error ⟨"open", path, cause⟩

/-- The tree in which the path is a file, which is empty if it was not there. -/
def create (t : Tree) (path : String) : Except FileError Tree :=
  match t.locate path with
  | .ok (_, .file _) => .ok t
  | _ => t.write path []

def filesBelow (t : Tree) (directory : List String) : List (List String) :=
  t.entries.filterMap fun (place, node) =>
    match node with
    | .file _ =>
      if directory.isPrefixOf place then some (place.drop directory.length) else none
    | .directory => none

/-- The files of a tree that another one does not have in the same form. -/
def changes (before after : Tree) : List (List String × List UInt8) :=
  after.entries.filterMap fun (place, node) =>
    match node with
    | .file bytes => if before.node? place = some node then none else some (place, bytes)
    | .directory => none

end Tree

end ClassEngine.Files
