import ClassEngine.Code.Listing
import ClassEngine.Command.Console

/-!
# Listings of methods

Every method, or those of one name, with its instructions and exception handlers.
Code that cannot be read to its end is listed as far as it goes.
-/

namespace ClassEngine.Command

private def handlerLine (pool : ClassFile.Pool) (h : ClassFile.Handler) : String :=
  let caught := if h.catchType = 0 then "any" else pool.describe h.catchType
  s!"  catch [{h.start.toNat}, {h.stop.toNat}) -> {h.target.toNat} {caught}\n"

def listMethod (c : ClassFile) (m : ClassFile.Method) : Task Unit := do
  Task.print (c.name ++ "." ++ m.name ++ m.descriptor ++ "\n")
  match m.body? with
  | none => Task.print "  (no code)\n"
  | some body =>
    let (instructions, error?) := Code.decode body.code
    Task.print (Code.listing (some c.pool.describe) instructions)
    match error? with
    | some e => throw (.code c.name m.name e)
    | none => Task.print (String.join (body.handlers.map (handlerLine c.pool)) ++ "\n")

def disassembleClass (given : Given) (project? : Option Project.Manifest) (argument : String) :
    Task Unit := do
  let bytes ← Task.readClass given project? argument
  let c ← Task.lift .classFile (ClassFile.parse bytes)
  let wanted := given.text "method"
  let methods := c.methods.filter fun m => wanted = "" ∨ m.name = wanted
  methods.forM (listMethod c)
  if wanted ≠ "" ∧ methods.isEmpty then throw (.noSuchMethod c.name wanted)

end ClassEngine.Command
