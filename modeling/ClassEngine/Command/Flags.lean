import ClassEngine.Text.Numeral
import ClassEngine.Text.Quoted

/-!
# Flags

A flag has a long name and perhaps a letter.  Flags and other arguments may be mixed;
two dashes alone end the flags.  A flag of one letter may be followed by its value
directly, and letters of flags that need no value may be joined.
-/

namespace ClassEngine.Command

inductive FlagKind where
  | text
  | integer
  | switch
  /-- Counts how often it is given. -/
  | count
  deriving DecidableEq, Repr

structure Flag where
  name : String
  letter? : Option Char
  kind : FlagKind
  deriving DecidableEq, Repr

/-- The value of a flag that is given without one, if it may be. -/
def Flag.implicit? (flag : Flag) : Option String :=
  match flag.kind with
  | .text | .integer => none
  | .switch => some "true"
  | .count => some "+1"

def Flag.title (flag : Flag) : String :=
  match flag.letter? with
  | some c => String.ofList ['-', c] ++ ", --" ++ flag.name
  | none => "--" ++ flag.name

inductive FlagValue where
  | text (s : String)
  | number (n : Int)
  | switch (b : Bool)
  deriving DecidableEq, Repr

inductive ValueError where
  | integer (value : String) (e : Text.NumeralError)
  | switch (value : String)
  deriving DecidableEq, Repr

def ValueError.message : ValueError → String
  | .integer value .malformed => s!"strconv.ParseInt: parsing {Text.quote value}: invalid syntax"
  | .integer value .outOfRange =>
    s!"strconv.ParseInt: parsing {Text.quote value}: value out of range"
  | .switch value => s!"strconv.ParseBool: parsing {Text.quote value}: invalid syntax"

inductive FlagError where
  | misspelt (argument : String)
  | unknown (name : String)
  | unknownLetter (letter : UInt8) (letters : String)
  | needsValue (name : String)
  | letterNeedsValue (letter : UInt8) (letters : String)
  | badValue (flag : Flag) (value : String) (e : ValueError)
  deriving DecidableEq, Repr

def FlagError.message : FlagError → String
  | .misspelt argument => s!"bad flag syntax: {argument}"
  | .unknown name => s!"unknown flag: --{name}"
  | .unknownLetter letter letters =>
    s!"unknown shorthand flag: {Text.quoteByte letter} in -{letters}"
  | .needsValue name => s!"flag needs an argument: --{name}"
  | .letterNeedsValue letter letters =>
    s!"flag needs an argument: {Text.quoteByte letter} in -{letters}"
  | .badValue flag value e =>
    s!"invalid argument {Text.quote value} for {Text.quote flag.title} flag: {e.message}"

abbrev Given := List (String × FlagValue)

namespace Given

def text (given : Given) (name : String) : String :=
  match given.lookup name with
  | some (.text s) => s
  | _ => ""

def number? (given : Given) (name : String) : Option Int :=
  match given.lookup name with
  | some (.number n) => some n
  | _ => none

def isOn (given : Given) (name : String) : Bool :=
  given.lookup name = some (.switch true)

end Given

/-! ## Values -/

def readSwitch? (value : String) : Option Bool :=
  if ["1", "t", "T", "TRUE", "true", "True"].contains value then some true
  else if ["0", "f", "F", "FALSE", "false", "False"].contains value then some false
  else none

def readValue (given : Given) (flag : Flag) (value : String) : Except ValueError FlagValue :=
  let readNumber := match Text.readInteger value with
    | .ok n => .ok (FlagValue.number n)
    | .error e => .error (ValueError.integer value e)
  match flag.kind with
  | .text => .ok (.text value)
  | .integer => readNumber
  | .switch =>
    match readSwitch? value with
    | some b => .ok (.switch b)
    | none => .error (.switch value)
  | .count =>
    if value = "+1" then .ok (.number ((given.number? flag.name).getD 0 + 1)) else readNumber

def assign (given : Given) (flag : Flag) (value : String) : Except FlagError Given :=
  match readValue given flag value with
  | .ok v => .ok ((flag.name, v) :: given.filter (·.1 ≠ flag.name))
  | .error e => .error (.badValue flag value e)

/-! ## Arguments -/

structure Reading where
  given : Given := []
  /-- Arguments that are no flags, the latest first. -/
  others : List String := []
  /-- A flag whose value is the next argument, with the error if there is none. -/
  waiting? : Option (Flag × FlagError) := none
  ended : Bool := false

def firstByte (c : Char) : UInt8 :=
  (String.singleton c).toUTF8.toList.headD 0

def readLetters (flags : List Flag) (r : Reading) : List Char → Except FlagError Reading
  | [] => .ok r
  | c :: rest =>
    let letters := String.ofList (c :: rest)
    match flags.find? (·.letter? = some c) with
    | none => .error (.unknownLetter (firstByte c) letters)
    | some flag =>
      match rest, flag.implicit? with
      | '=' :: d :: value, _ => do
        return { r with given := ← assign r.given flag (String.ofList (d :: value)) }
      | rest, some value => do
        readLetters flags { r with given := ← assign r.given flag value } rest
      | [], none =>
        .ok { r with waiting? := some (flag, .letterNeedsValue (firstByte c) letters) }
      | value, none => do
        return { r with given := ← assign r.given flag (String.ofList value) }

def readName (flags : List Flag) (r : Reading) (argument : String) (body : List Char) :
    Except FlagError Reading :=
  match body with
  | '-' :: _ | '=' :: _ => .error (.misspelt argument)
  | _ =>
    let (name, value) := body.span (· ≠ '=')
    let name := String.ofList name
    match flags.find? (·.name = name) with
    | none => .error (.unknown name)
    | some flag =>
      match value, flag.implicit? with
      | _ :: value, _ => do
        return { r with given := ← assign r.given flag (String.ofList value) }
      | [], some value => do
        return { r with given := ← assign r.given flag value }
      | [], none => .ok { r with waiting? := some (flag, .needsValue name) }

def readArgument (flags : List Flag) (r : Reading) (argument : String) :
    Except FlagError Reading :=
  if r.ended then .ok { r with others := argument :: r.others }
  else match r.waiting? with
    | some (flag, _) => do
      return { r with given := ← assign r.given flag argument, waiting? := none }
    | none =>
      match argument.toList with
      | ['-', '-'] => .ok { r with ended := true }
      | '-' :: '-' :: body => readName flags r argument body
      | '-' :: c :: rest => readLetters flags r (c :: rest)
      | _ => .ok { r with others := argument :: r.others }

def readArguments (flags : List Flag) (arguments : List String) :
    Except FlagError (Given × List String) := do
  let r ← arguments.foldlM (readArgument flags) {}
  match r.waiting? with
  | some (_, e) => throw e
  | none => return (r.given, r.others.reverse)

end ClassEngine.Command
