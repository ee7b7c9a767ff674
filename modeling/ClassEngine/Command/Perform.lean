import ClassEngine.Command.Disassemble
import ClassEngine.Command.Inspect
import ClassEngine.Command.Run

/-!
# Performing commands

The command line as a function: from the files and the arguments to what is printed,
the files afterwards, and the error that ended it.
-/

namespace ClassEngine.Command

open Project

structure Outcome where
  console : Console
  error? : Option CommandError

def usage : String :=
  "Usage:\n" ++ String.join ([Action.run, .inspect, .disasm].map fun action =>
    s!"  {programName} {action.name}\n")

def logPath (given : Given) (project? : Option Manifest) : String :=
  let chosen := given.text "log-file"
  if chosen ≠ "" then chosen else (project?.map (·.logPath)).getD ""

def startLog (given : Given) (project? : Option Manifest) : Task Unit := do
  let path := logPath given project?
  if path ≠ "" then
    match (← get).tree.create path with
    | .ok tree => modify fun c => { c with tree }
    | .error _ => pure ()

def checkArguments (action : Action) (arguments : List String) : Task Unit :=
  let received := arguments.length
  match action with
  | .run => if 1 < received then throw (.tooManyArguments 1 received) else pure ()
  | .inspect | .disasm => if received ≠ 1 then throw (.wrongArguments 1 received) else pure ()
  | .version | .help | .completion => pure ()

def act (fuel : Nat) (action : Action) (arguments : List String) : Task Unit := do
  let (given, others) ← Task.lift .flag (readArguments action.flags arguments)
  if given.isOn helpFlag.name then Task.print usage
  else
    checkArguments action others
    let project? ← Task.lift .manifest (Manifest.loadNearest (← get).tree ".")
    startLog given project?
    match action, others with
    | .run, _ => runClass fuel given project? others
    | .inspect, argument :: _ => inspectClass given project? argument
    | .disasm, argument :: _ => disassembleClass given project? argument
    | .version, _ => Task.print s!"{programName} version dev\n"
    | _, _ => Task.print usage

def dispatch (fuel : Nat) (arguments : List String) : Task Unit :=
  match commandWord? arguments with
  | none => do
    let _ ← Task.lift .flag (readArguments (helpFlag :: sharedFlags) arguments)
    Task.print usage
  | some word =>
    match Action.ofName? word with
    | some action => act fuel action (withoutWord word arguments)
    | none => throw (.unknownCommand word)

/-- The paths that matter to a command, given a tree that has the project's manifest. -/
def touchedPaths (tree : Files.Tree) (arguments : List String) : List String :=
  match (commandWord? arguments).bind Action.ofName? with
  | none => []
  | some action =>
    let rest := withoutWord action.name arguments
    match readArguments action.flags rest with
    | .error _ => []
    | .ok (given, others) =>
      let project? := (Manifest.loadNearest tree ".").toOption.bind id
      let written := [given.text "out", logPath given project?].filter (· ≠ "")
      classPaths given project? ++ others ++ written ++
        written.map fun path => Files.join [path, ".."]

/-- After an error its message is printed, and after an unknown command a hint. -/
def closing : CommandError → String
  | .unknownCommand word =>
    s!"Error: {unknownCommand word}\nRun '{programName} --help' for usage.\n"
  | e => s!"Error: {e.message}\n"

def perform (fuel : Nat) (tree : Files.Tree) (arguments : List String) : Outcome :=
  match (dispatch fuel arguments).run { tree } with
  | (.ok _, console) => ⟨console, none⟩
  | (.error e, console) => ⟨{ console with err := console.err ++ closing e }, some e⟩

end ClassEngine.Command
