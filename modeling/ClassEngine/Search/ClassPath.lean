import ClassEngine.Search.Directory
import ClassEngine.Search.Jar

/-!
# Class paths

A class path is a list of directories and archives, told apart by the ending of
their names and searched in order.
-/

namespace ClassEngine.Search

open Files

inductive Place where
  | directory (root : String)
  | archive (jar : Jar)

inductive ClassPathError where
  | archive (path : String) (e : JarError)
  | unreachable (path : String) (e : FileError)
  | unsuitable (path : String)
  deriving DecidableEq, Repr

def ClassPathError.message : ClassPathError → String
  | .archive path e => s!"opening archive {path}: {e.message path}"
  | .unreachable path e => s!"classpath entry {path}: {e.message}"
  | .unsuitable path => s!"classpath entry {path}: not a directory or archive"

namespace ClassPath

/-- Letters are taken as small ones; besides the capital letters, the dotted capital
`I` has the small form `i`. -/
private def lower (c : Char) : Char :=
  if c = 'İ' then 'i' else c.toLower

def isArchive (path : String) : Bool :=
  let ending := (extension path).map lower
  ending = ".jar" || ending = ".zip"

def openPlace (tree : Tree) (path : String) : Except ClassPathError Place := do
  if isArchive path then
    return .archive (← (Jar.load tree path).mapError (.archive path))
  match ← (tree.stat path).mapError (.unreachable path) with
  | .directory => return .directory path
  | .file _ => throw (.unsuitable path)

def openAll (tree : Tree) (paths : List String) : Except ClassPathError (List Place) :=
  (paths.filter (· ≠ "")).mapM (openPlace tree)

def parse (text : String) : List String :=
  if text = "" then [] else Text.split ':' text

end ClassPath

def Place.source (tree : Tree) : Place → Source
  | .directory root => Directory.source tree root
  | .archive jar => jar.source

def classPath (tree : Tree) (places : List Place) : Source :=
  path (places.map (·.source tree))

end ClassEngine.Search
