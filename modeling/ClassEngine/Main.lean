import ClassEngine.Command.Perform

/-!
# The program

Copies the files that a command may read into a tree, performs the command on it, and
carries out what it wrote and printed.
-/

namespace ClassEngine

open Files

/-- Deeper directories are taken to be empty. -/
def depthLimit : Nat := 64

def stepLimit : Nat := 1000000000000000000

/-- Copies what is at a path into the tree; of the files below a directory, those of
classes. -/
def copyIn (tree : Tree) (path : String) (below : Bool) : (depth : Nat) → IO Tree
  | 0 => return tree
  | depth + 1 => do
    let place := (Pathname.ofString path).names
    match ← (IO.FS.realPath path).toBaseIO with
    | .error _ => return tree
    | .ok real =>
      if ← real.isDir then
        let entries ← (real.readDir).toBaseIO
        let mut tree := tree.add place .directory
        for entry in entries.toOption.getD #[] do
          tree ← copyIn tree (join [path, entry.fileName]) true depth
        return tree
      else if below && extension path ≠ ".class" then return tree
      else
        match ← (IO.FS.readBinFile real).toBaseIO with
        | .ok bytes => return tree.add place (.file bytes.toList)
        | .error _ => return tree

def perform (arguments : List String) : IO UInt32 := do
  let here := toString (← IO.currentDir)
  let current := Pathname.ofString here
  let bare := Tree.add ⟨[], current.names⟩ current.names .directory
  let manifests := (Project.Manifest.upward current).map fun d => join [d, Project.fileName]
  let known ← manifests.foldlM (fun tree path => copyIn tree path false 1) bare
  let paths := (Command.touchedPaths known arguments).map fun path => (absolute here path).toString
  let tree ← paths.foldlM (fun tree path => copyIn tree path false depthLimit) known
  let outcome := Command.perform stepLimit tree arguments
  for (place, bytes) in tree.changes outcome.console.tree do
    IO.FS.writeBinFile (Pathname.mk true place).toString ⟨bytes.toArray⟩
  IO.print outcome.console.out
  IO.eprint outcome.console.err
  return if outcome.error?.isSome then 1 else 0

end ClassEngine

def main (arguments : List String) : IO UInt32 :=
  ClassEngine.perform arguments
