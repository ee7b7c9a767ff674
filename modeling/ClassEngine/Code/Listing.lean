import ClassEngine.Code.Instruction

/-!
# Code listings

One line for each instruction: its position, its mnemonic and its operands.
Branch and switch targets are written as positions, and pool indices are
annotated by a describer where one is given.
-/

namespace ClassEngine.Code

def targetText (pc : Nat) (offset : Int) : String :=
  toString ((pc : Int) + offset)

def switchText (pc : Nat) (t : SwitchTable) : String :=
  let row := fun (key, offset) => s!" {key.toInt}: {targetText pc offset.toInt};"
  " \x7b" ++ String.join (t.cases.map row) ++ s!" default: {targetText pc t.default.toInt} \x7d"

def plainText (vs : List Int) : String :=
  String.intercalate "," (vs.map fun v => s!" {v}")

def poolText (describe? : Option (UInt16 → String)) (index : Int) (rest : List Int) :
    String :=
  let note := match describe? with
    | some describe => s!" // {describe (UInt16.ofNat index.toNat)}"
    | none => ""
  s!" #{index}" ++ note ++ String.join (rest.map fun v => s!", {v}")

def operandText (describe? : Option (UInt16 → String)) (i : Instruction) : String :=
  match i.operands with
  | .table t => switchText i.pc t
  | .values [] => ""
  | .values (first :: rest) =>
    if i.op.isBranch then " " ++ targetText i.pc first
    else if i.op.usesPool then poolText describe? first rest
    else plainText (first :: rest)

def Instruction.render (describe? : Option (UInt16 → String)) (i : Instruction) : String :=
  let modifier := if i.widened then "wide " else ""
  s!"{Text.decimalColumn 5 i.pc}: " ++ modifier ++ i.op.mnemonic ++ operandText describe? i

def listing (describe? : Option (UInt16 → String)) (is : List Instruction) : String :=
  String.join (is.map fun i => i.render describe? ++ "\n")

end ClassEngine.Code
