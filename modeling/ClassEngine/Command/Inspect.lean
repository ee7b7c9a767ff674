import ClassEngine.Command.Console

/-!
# Summaries of classes

A summary lists what a class file declares.  Instead the class may be linked and
described by the machine, or written as a snapshot.
-/

namespace ClassEngine.Command

open Machine

private def fieldLine (f : Snapshot.Field) : String :=
  let initial := if f.constant = "" then "" else " = " ++ f.constant
  s!"  field {f.name} {f.descriptor}" ++ initial ++ "\n"

private def methodLine (m : Snapshot.Method) : String :=
  let size := match m.code? with
    | some code =>
      let bytes := (code.bytes?.getD []).length
      s!" ({bytes} bytes, stack {code.maxStack.toNat}, locals {code.maxLocals.toNat})"
    | none => ""
  "  method " ++ m.name ++ m.descriptor ++ size ++ "\n"

def summary (c : Snapshot.Class) : String :=
  let digest := String.join (c.digest.map fun b => Text.hexLower 2 b.toNat)
  let flags := Text.hexLower 4 c.flags.toNat
  s!"{c.name} (version {c.major.toNat}.{c.minor.toNat}, flags 0x{flags})\n" ++
    (if c.super = "" then "" else s!"  extends {c.super}\n") ++
    String.join (c.interfaces.map fun name => s!"  implements {name}\n") ++
    (if c.sourceFile = "" then "" else s!"  source {c.sourceFile}\n") ++
    s!"  constants {c.constants.length}\n" ++
    String.join (c.fields.map fieldLine) ++
    String.join (c.methods.map methodLine) ++
    s!"  sha256 {digest}\n"

def inspectClass (given : Given) (project? : Option Project.Manifest) (argument : String) :
    Task Unit := do
  let bytes ← Task.readClass given project? argument
  let c ← Task.lift .snapshot (Snapshot.ofBytes bytes)
  let path := given.text "out"
  if path ≠ "" then
    Task.writeFile path c.encode
  else if given.isOn "link" then
    let source ← Task.classSource given project?
    match Exec.loadClass c.name (Vm.start (some source) 0 none) with
    | .ok id vm => Task.print (vm.describe id ++ "\n")
    | .error stop _ => throw (.machine stop)
  else
    Task.print (summary c)

end ClassEngine.Command
