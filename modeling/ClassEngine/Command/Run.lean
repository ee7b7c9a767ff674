import ClassEngine.Command.Console

/-!
# Running programs

The result of the program is printed unless it has none.  A profile goes before what
is said about a failure.
-/

namespace ClassEngine.Command

open Machine

def profileTable (profiler : Profiler MethodId) (count : Int) : String :=
  let row (a b method : String) : String :=
    Text.padLeft 12 ' ' a ++ " " ++ Text.padLeft 12 ' ' b ++ "  " ++ method ++ "\n"
  row "instructions" "invocations" "method" ++
    String.join ((profiler.top count).map fun p =>
      row (toString p.instructions) (toString p.invocations) p.method)

def resultText (v : Value) : Exec (Option String) :=
  match v with
  | .top => return none
  | v => return some ((← Exec.textOf? v).getD v.render)

def runClass (fuel : Nat) (given : Given) (project? : Option Project.Manifest)
    (arguments : List String) : Task Unit := do
  let className := match arguments, project? with
    | argument :: _, _ => argument
    | [], some project => project.main
    | [], none => ""
  if className = "" then throw .noClassGiven
  let frames := match given.number? "max-frames", project? with
    | some n, _ => n
    | none, some project => project.maxFrames
    | none, none => Project.defaultMaxFrames
  let source ← Task.classSource given project?
  let top := (given.number? "profile").getD 0
  let profiler? := if 0 < top then some {} else none
  let program : Exec (Option String) := do resultText (← Exec.runProgram fuel className)
  let (outcome, vm) : Except Stop (Option String) × Vm :=
    match program (Vm.start (some source) frames profiler?) with
    | .ok text? vm => (.ok text?, vm)
    | .error stop vm => (.error stop, vm)
  match vm.profiler? with
  | some profiler => Task.report (profileTable profiler top)
  | none => pure ()
  match outcome with
  | .ok (some text) => Task.print (text ++ "\n")
  | .ok none => pure ()
  | .error stop =>
    match stop with
    | .fault f =>
      match f.uncaught? with
      | some e => Task.report (e.stackTrace ++ "\n")
      | none => pure ()
    | _ => pure ()
    throw (.machine stop)

end ClassEngine.Command
