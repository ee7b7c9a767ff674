import ClassEngine.Command.Flags

/-!
# Choosing a command

The command is the first argument that is neither a flag nor the value of one.  Which
flags take a value is only known for those that all commands share, so any other flag
is taken to need one.
-/

namespace ClassEngine.Command

inductive Action where
  | run
  | inspect
  | disasm
  | version
  | help
  | completion
  deriving DecidableEq, Repr

namespace Action

def all : List Action := [.disasm, .inspect, .run, .version, .help, .completion]

def name : Action → String
  | .run => "run"
  | .inspect => "inspect"
  | .disasm => "disasm"
  | .version => "version"
  | .help => "help"
  | .completion => "completion"

def ofName? (name : String) : Option Action :=
  all.find? (·.name = name)

end Action

def programName : String := "blaze"

def sharedFlags : List Flag :=
  [⟨"verbose", some 'v', .count⟩, ⟨"log-file", none, .text⟩]

def helpFlag : Flag := ⟨"help", some 'h', .switch⟩

def classPathFlag : Flag := ⟨"classpath", some 'c', .text⟩

def Action.flags (action : Action) : List Flag :=
  let own := match action with
    | .run => [classPathFlag, ⟨"max-frames", none, .integer⟩, ⟨"profile", none, .integer⟩]
    | .inspect => [classPathFlag, ⟨"out", some 'o', .text⟩, ⟨"link", none, .switch⟩]
    | .disasm => [classPathFlag, ⟨"method", some 'm', .text⟩]
    | .version | .help | .completion => []
  own ++ helpFlag :: sharedFlags

/-! ## Finding the command -/

def takesNext (argument : String) : Bool :=
  let needs (flag? : Option Flag) : Bool := (flag?.bind (·.implicit?)).isNone
  if argument.toList.contains '=' then false
  else match argument.toList with
    | '-' :: '-' :: name => needs (sharedFlags.find? (·.name = String.ofList name))
    | ['-', c] => c.toNat < 128 && needs (sharedFlags.find? (·.letter? = some c))
    | _ => false

def isFlag (argument : String) : Bool :=
  argument.toList.head? = some '-'

/-- The first word that may be a command; the last argument is not looked at after a
flag that takes it. -/
def commandWord? : List String → Option String
  | [] => none
  | "--" :: _ => none
  | argument :: rest =>
    if takesNext argument then
      match rest with
      | _ :: next :: rest => commandWord? (next :: rest)
      | _ => none
    else if argument ≠ "" ∧ ¬ isFlag argument then some argument
    else commandWord? rest

def withoutWord (word : String) : List String → List String
  | [] => []
  | "--" :: rest => "--" :: rest
  | argument :: rest =>
    if takesNext argument then
      match rest with
      | value :: rest => argument :: value :: withoutWord word rest
      | [] => [argument]
    else if argument = word then rest
    else argument :: withoutWord word rest

/-! ## Suggestions -/

/-- How many bytes have to be added, removed or replaced to turn one text into another.
The last row of the table of distances is kept. -/
def editDistance (a b : List UInt8) : Nat :=
  let step (row : List Nat) (x : UInt8) : List Nat :=
    let first := row.headD 0 + 1
    let cells := b.zip (row.zip row.tail)
    let fill (done : List Nat) (cell : UInt8 × Nat × Nat) : List Nat :=
      let (y, diagonal, above) := cell
      let left := done.headD 0
      (if x = y then diagonal else min (min diagonal above) left + 1) :: done
    (cells.foldl fill [first]).reverse
  (a.foldl step (List.range (b.length + 1))).getLastD 0

private def lowerLetter (c : Char) : Char :=
  if c = 'İ' then 'i' else if c = '\u212A' then 'k' else c.toLower

def suggestions (word : String) : List Action :=
  let typed := word.map lowerLetter
  Action.all.filter fun action =>
    action ≠ .help &&
      (editDistance typed.toUTF8.toList action.name.toUTF8.toList ≤ 2 ||
        typed.toList.isPrefixOf action.name.toList)

def unknownCommand (word : String) : String :=
  let meant := suggestions word
  s!"unknown command {Text.quote word} for {Text.quote programName}" ++
    if meant.isEmpty then ""
    else "\n\nDid you mean this?\n" ++ String.join (meant.map fun action => s!"\t{action.name}\n")

end ClassEngine.Command
