import ClassEngine.Code.Instruction
import ClassEngine.Command.Choice
import ClassEngine.Machine.Host
import ClassEngine.Project.Manifest
import ClassEngine.Search.ClassPath
import ClassEngine.Snapshot.Encoding

/-!
# What commands work with

A command reads and writes files, prints to two streams and may fail; what it printed
and wrote before it failed stays.
-/

namespace ClassEngine.Command

open Files

inductive CommandError where
  | flag (e : FlagError)
  | unknownCommand (word : String)
  | tooManyArguments (allowed received : Nat)
  | wrongArguments (wanted received : Nat)
  | manifest (e : Project.ManifestError)
  | classPath (e : Search.ClassPathError)
  | noClassGiven
  | lookup (name : String) (e : Search.SearchError)
  | file (e : FileError)
  | classFile (e : ClassFile.ParseError)
  | snapshot (e : Snapshot.SnapshotError)
  | code (className method : String) (e : Code.ReadError)
  | noSuchMethod (className method : String)
  | machine (stop : Machine.Stop)

def stopMessage : Machine.Stop → String
  | .fault f => f.message
  | .defect d => d.message
  | .thrown _ => "exception without a handler"
  | .undefined => "undefined use of a value"
  | .exhausted => "out of steps"

def CommandError.message : CommandError → String
  | .flag e => e.message
  | .unknownCommand word => Command.unknownCommand word
  | .tooManyArguments allowed received =>
    s!"accepts at most {allowed} arg(s), received {received}"
  | .wrongArguments wanted received => s!"accepts {wanted} arg(s), received {received}"
  | .manifest e => e.message
  | .classPath e => e.message
  | .noClassGiven => "no class given and no run.main in " ++ Project.fileName
  | .lookup name e => s!"{name}: {e.message}"
  | .file e => e.message
  | .classFile e => e.message
  | .snapshot e => e.message
  | .code className method e => s!"{className}.{method}: {e.message}"
  | .noSuchMethod className method => s!"{className} has no method {Text.quote method}"
  | .machine stop => stopMessage stop

/-- Where classes are searched: as a flag says, else as the project says, else in the
current directory. -/
def classPaths (given : Given) (project? : Option Project.Manifest) : List String :=
  let written := given.text classPathFlag.name
  if written ≠ "" then Search.ClassPath.parse written
  else match project? with
    | some project => project.classPath
    | none => ["."]

structure Console where
  tree : Tree
  out : String := ""
  err : String := ""

abbrev Task := ExceptT CommandError (StateM Console)

namespace Task

def print (text : String) : Task Unit :=
  modify fun c => { c with out := c.out ++ text }

def report (text : String) : Task Unit :=
  modify fun c => { c with err := c.err ++ text }

def lift {α ε : Type} (wrap : ε → CommandError) : Except ε α → Task α
  | .ok a => pure a
  | .error e => throw (wrap e)

def readFile (path : String) : Task (List UInt8) := do
  lift .file ((← get).tree.read path)

def writeFile (path : String) (bytes : List UInt8) : Task Unit := do
  let tree ← lift .file ((← get).tree.write path bytes)
  modify fun c => { c with tree }

def classSource (given : Given) (project? : Option Project.Manifest) : Task Search.Source := do
  let tree := (← get).tree
  let places ← lift .classPath (Search.ClassPath.openAll tree (classPaths given project?))
  return Search.classPath tree places

def readClass (given : Given) (project? : Option Project.Manifest) (argument : String) :
    Task (List UInt8) := do
  if extension argument = ".class" then readFile argument
  else
    let source ← classSource given project?
    lift (.lookup argument) (source.find argument)

end Task

end ClassEngine.Command
