import ClassEngine.Archive.Zip
import ClassEngine.Files.Tree
import ClassEngine.Search.Source

/-!
# Archives of class files

The class `a/b/C` is the archived file `a/b/C.class`.  Archives are indexed when
they are opened and unpacked on demand; of several files of one name the last one
counts.
-/

namespace ClassEngine.Search

open Archive Files

structure Jar where
  path : String
  data : Array UInt8
  /-- Class files by class name, each name once. -/
  classes : List (List UInt8 × Entry)

inductive JarError where
  | file (e : FileError)
  | archive (e : ArchiveError)
  deriving DecidableEq, Repr

def JarError.message (path : String) : JarError → String
  | .file e => e.message
  | .archive e => e.message path

namespace Jar

def ending : List UInt8 := ".class".toUTF8.toList

private def className? (entry : Entry) : Option (List UInt8) :=
  let size := entry.name.length - ending.length
  if entry.isDirectory || entry.name.drop size ≠ ending then none
  else some (entry.name.take size)

private def insert (classes : List (List UInt8 × Entry)) (entry : Entry) :
    List (List UInt8 × Entry) :=
  match className? entry with
  | none => classes
  | some name => (name, entry) :: classes.filter (·.1 ≠ name)

def ofEntries (path : String) (data : Array UInt8) (entries : List Entry) : Jar :=
  ⟨path, data, entries.foldl insert []⟩

def load (tree : Tree) (path : String) : Except JarError Jar := do
  let bytes ← (tree.read path).mapError .file
  let data := bytes.toArray
  let entries ← (Archive.entries data).mapError .archive
  return ofEntries path data entries

def find (jar : Jar) (name : String) : Except SearchError (List UInt8) :=
  match jar.classes.lookup name.toUTF8.toList with
  | none => .error (.notFound name)
  | some entry =>
    match entry.extract jar.data with
    | .ok bytes => .ok bytes
    | .error e => .error (.failed s!"{jar.path}!{name}.class: {e.message jar.path}")

def names (jar : Jar) : List String :=
  jar.classes.filterMap fun (name, _) => String.fromUTF8? ⟨name.toArray⟩

def source (jar : Jar) : Source :=
  .among jar.names jar.find

end Jar

end ClassEngine.Search
