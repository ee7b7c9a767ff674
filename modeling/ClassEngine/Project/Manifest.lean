import ClassEngine.Files.Tree
import ClassEngine.Text.Quoted
import ClassEngine.Toml.Document

/-!
# Project manifests

A project keeps its settings in a file named `blaze.toml`; its directory is the one
that relative paths in it start from.  Names of settings may be written in capital or
small letters.  Settings that nothing reads are listed and otherwise ignored.
-/

namespace ClassEngine.Project

open Files Toml

def fileName : String := "blaze.toml"
def defaultMaxFrames : Int := 1024
def defaultEntries : List String := ["classes"]

structure Manifest where
  name : String := ""
  version : String := ""
  entries : List String := []
  main : String := ""
  maxFrames : Int := 0
  verbosity : Int := 0
  logFile : String := ""
  directory : String := ""
  unknown : List String := []

inductive InvalidSetting where
  | maxFrames (n : Int)
  | verbosity (n : Int)
  | main (name : String)
  deriving DecidableEq, Repr

def InvalidSetting.message : InvalidSetting → String
  | .maxFrames n => s!"run.max-frames must be positive, got {n}"
  | .verbosity n => s!"log.verbosity must be -1 or more, got {n}"
  | .main name => s!"run.main must use internal form (a/b/C), got {Text.quote name}"

inductive ManifestError where
  | unreadable (path : String) (e : FileError)
  | malformed (path : String)
  | invalid (path : String) (e : InvalidSetting)
  deriving DecidableEq, Repr

def ManifestError.message : ManifestError → String
  | .unreadable path e => s!"cannot read {path}: {e.message}"
  | .malformed path => s!"parse error in {path}"
  | .invalid path e => s!"{path}: {e.message}"

/-! ## Names of settings -/

/-- Letters that differ only in case are one letter; the long `s` and the sign for
kelvin also count as `s` and `k`. -/
def foldLetter (c : Char) : Char :=
  if c = 'ſ' then 's' else if c = '\u212A' then 'k' else c.toLower

def foldName (name : String) : String :=
  name.map foldLetter

def settings : List (String × List String) :=
  [("project", ["name", "version"]), ("classpath", ["entries"]),
    ("run", ["main", "max-frames"]), ("log", ["verbosity", "file"])]

def isKnown (key : Key) : Bool :=
  match key.map foldName with
  | [group] => (settings.lookup group).isSome
  | [group, name] => ((settings.lookup group).getD []).contains name
  | _ => false

private def escapeKeyChar (c : Char) : String :=
  if c = '"' then "\\\""
  else if c = '\\' then "\\\\"
  else if c = '\t' then "\\t"
  else if c = '\n' then "\\n"
  else if c = '\r' then "\\r"
  else if c.toNat = 8 then "\\b"
  else if c.toNat = 12 then "\\f"
  else if c.toNat < 0x20 || c.toNat = 0x7F then "\\u" ++ Text.hexLower 4 c.toNat
  else String.singleton c

/-- A part of a key that could not be written bare is written between quote marks. -/
def writeKeyPart (part : String) : String :=
  if part ≠ "" && part.toList.all Scan.isBareChar then part
  else "\"" ++ String.join (part.toList.map escapeKeyChar) ++ "\""

def writeKey (key : Key) : String :=
  ".".intercalate (key.map writeKeyPart)

/-! ## Reading settings -/

private def text? : Value → Option String
  | .text s => some s
  | _ => none

private def integer? : Value → Option Int
  | .integer n => some n
  | _ => none

private def texts? : Value → Option (List String)
  | .array items => items.mapM text?
  | _ => none

namespace Manifest

def readSetting (m : Manifest) (group name : String) (v : Value) : Option Manifest :=
  match group, foldName name with
  | "project", "name" => return { m with name := ← text? v }
  | "project", "version" => return { m with version := ← text? v }
  | "classpath", "entries" => return { m with entries := ← texts? v }
  | "run", "main" => return { m with main := ← text? v }
  | "run", "max-frames" => return { m with maxFrames := ← integer? v }
  | "log", "verbosity" => return { m with verbosity := ← integer? v }
  | "log", "file" => return { m with logFile := ← text? v }
  | _, _ => some m

def readGroup (m : Manifest) (group : String) (v : Value) : Option Manifest :=
  if (settings.lookup (foldName group)).isNone then some m
  else match v with
    | .table entries =>
      entries.foldlM (fun m (name, v) => m.readSetting (foldName group) name v) m
    | _ => none

def ofDocument? (doc : Document) : Option Manifest := do
  let m ← doc.root.foldlM (fun m (group, v) => readGroup m group v) {}
  return { m with unknown := (doc.keys.filter (!isKnown ·)).map writeKey }

def withDefaults (m : Manifest) : Manifest :=
  { m with
    entries := if m.entries.isEmpty then defaultEntries else m.entries
    maxFrames := if m.maxFrames = 0 then defaultMaxFrames else m.maxFrames }

def invalid? (m : Manifest) : Option InvalidSetting :=
  if m.maxFrames < 0 then some (.maxFrames m.maxFrames)
  else if m.verbosity < -1 then some (.verbosity m.verbosity)
  else if m.main.toList.contains '.' then some (.main m.main)
  else none

private def currentText (tree : Tree) : String :=
  (Pathname.mk true tree.current).toString

def load (tree : Tree) (dir : String) : Except ManifestError Manifest := do
  let path := join [dir, fileName]
  let bytes ← (tree.read path).mapError (.unreadable path)
  let some m := (Document.ofBytes? bytes).bind ofDocument? | throw (.malformed path)
  let m := { m.withDefaults with directory := (absolute (currentText tree) dir).toString }
  match m.invalid? with
  | some e => throw (.invalid path e)
  | none => return m

def upward (dir : Pathname) : List String :=
  (List.range (dir.names.length + 1)).reverse.map fun i =>
    ({ dir with names := dir.names.take i } : Pathname).toString

def loadNearest (tree : Tree) (dir : String) : Except ManifestError (Option Manifest) :=
  let start := absolute (currentText tree) dir
  match (upward start).find? fun d => (tree.stat (join [d, fileName])).isOk with
  | some d => some <$> load tree d
  | none => .ok none

/-! ## Paths -/

private def resolve (m : Manifest) (path : String) : String :=
  if Pathname.isRooted path then path else join [m.directory, path]

def classPath (m : Manifest) : List String :=
  m.entries.map m.resolve

def logPath (m : Manifest) : String :=
  if m.logFile = "" then "" else m.resolve m.logFile

end Manifest

end ClassEngine.Project
