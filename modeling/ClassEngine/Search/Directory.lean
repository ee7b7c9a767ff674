import ClassEngine.Files.Tree
import ClassEngine.Search.Source

/-!
# Directories of class files

Below a root directory the class `a/b/C` is the file `a/b/C.class`.  Names that are
no plain sequence of file names are never looked up, so no lookup leaves the root.
-/

namespace ClassEngine.Search.Directory

open Files

def validName (name : String) : Bool :=
  name.toList.head? ≠ some '[' &&
    (Text.split '/' name).all fun part => part ≠ "" && part ≠ "." && part ≠ ".."

def file? (root name : String) : Option String :=
  if validName name then some (join [root, name ++ ".class"]) else none

def find (tree : Tree) (root name : String) : Except SearchError (List UInt8) :=
  match file? root name with
  | none => .error (.notFound name)
  | some path =>
    match tree.read path with
    | .ok bytes => .ok bytes
    | .error e =>
      .error (if e.cause = .missing then .notFound name
        else .failed s!"reading {path}: {e.message}")

def names (tree : Tree) (root : String) : List String :=
  match tree.locate (clean root) with
  | .ok (place, .directory) =>
    (tree.filesBelow place).filterMap fun parts =>
      Text.dropEnding? ".class" ("/".intercalate parts)
  | _ => []

def source (tree : Tree) (root : String) : Source :=
  .among (names tree root) (find tree root)

end ClassEngine.Search.Directory
