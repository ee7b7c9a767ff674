import ClassEngine.Toml.Literal

/-!
# The grammar of project files

A file is a sequence of lines: headers of tables, and keys with their values.
Reading one gives its statements in order; what they mean together is not decided
here.
-/

namespace ClassEngine.Toml

open Text

inductive Statement where
  | table (key : Key)
  | tableRow (key : Key)
  | assign (key : Key) (value : Literal)

abbrev Scan := StateT (List Char) Option

namespace Scan

def next? : Scan (Option Char) :=
  return (← get).head?

def skip (p : Char → Bool) : Scan Unit :=
  modify (·.dropWhile p)

def takeWhile (p : Char → Bool) : Scan (List Char) := do
  let s ← get
  set (s.dropWhile p)
  return s.takeWhile p

def accept (text : List Char) : Scan Bool := do
  let s ← get
  if text.isPrefixOf s then
    set (s.drop text.length)
    return true
  return false

def expect (c : Char) : Scan Unit := do
  guard (← accept [c])

def isBlank (c : Char) : Bool := c = ' ' || c = '\t'

/-- A carriage return only stands before a line feed, so it may count as a break itself. -/
def isBreak (c : Char) : Bool := c = '\n' || c = '\r'

def skipComment : Scan Unit := do
  if ← accept ['#'] then skip fun c => !isBreak c

def skipSpace : (fuel : Nat) → Scan Unit
  | 0 => pure ()
  | fuel + 1 => do
    skip fun c => isBlank c || isBreak c
    if (← next?) = some '#' then
      skipComment
      skipSpace fuel

/-! ## Texts -/

private def hexNumber? (count : Nat) (s : List Char) : Option (Char × List Char) := do
  let digits := s.take count
  let n := numberIn 16 digits
  if digits.length = count && digits.all isHexDigit && n.isValidChar then
    some (Char.ofNat n, s.drop count)
  else none

private def shortEscape? : Char → Option Char
  | 'b' => some '\x08'
  | 't' => some '\t'
  | 'n' => some '\n'
  | 'f' => some '\x0c'
  | 'r' => some '\r'
  | 'e' => some '\x1b'
  | '"' => some '"'
  | '\\' => some '\\'
  | _ => none

private def escape? : List Char → Option (Char × List Char)
  | 'x' :: rest => hexNumber? 2 rest
  | 'u' :: rest => hexNumber? 4 rest
  | 'U' :: rest => hexNumber? 8 rest
  | c :: rest => (shortEscape? c).map (·, rest)
  | [] => none

/-- Replaces escapes.  Where lines may break, a backslash before a break also removes all
blank space after it. -/
def unescape? (lines : Bool) : (fuel : Nat) → List Char → Option (List Char)
  | _, [] => some []
  | 0, _ => none
  | fuel + 1, '\\' :: rest => do
    let space := rest.takeWhile fun c => isBlank c || isBreak c
    if lines && space.contains '\n' then
      unescape? lines fuel (rest.drop space.length)
    else
      let (c, rest) ← escape? rest
      return c :: (← unescape? lines fuel rest)
  | fuel + 1, c :: rest => return c :: (← unescape? lines fuel rest)

/-- The text up to a closing mark on the same line; a backslash protects what follows it. -/
def untilMark (mark : Char) (escapes : Bool) : List Char → Option (List Char × List Char)
  | [] => none
  | c :: rest =>
    if c = mark then some ([], rest)
    else if isBreak c then none
    else if escapes && c = '\\' then
      match rest with
      | [] => none
      | d :: rest => do
        if isBreak d then none
        let (inner, rest) ← untilMark mark escapes rest
        return (c :: d :: inner, rest)
    else do
      let (inner, rest) ← untilMark mark escapes rest
      return (c :: inner, rest)

private def fiveMarks (mark : Char) (escapes : Bool) (read : List Char) : Bool :=
  read.take 5 = List.replicate 5 mark && !(escapes && read[5]? = some '\\')

/-- The text up to three closing marks; one or two more marks may stand before them.
What was read is kept latest first. -/
def untilMarks (mark : Char) (escapes : Bool) (read : List Char) :
    List Char → Option (List Char × List Char)
  | [] => none
  | c :: rest =>
    if c = mark then
      match rest with
      | d :: e :: after =>
        if d = mark ∧ e = mark then
          if after.head? = some mark then
            if fiveMarks mark escapes (mark :: mark :: mark :: read) then none
            else untilMarks mark escapes (c :: read) rest
          else some (read.reverse, after)
        else untilMarks mark escapes (c :: read) rest
      | _ => untilMarks mark escapes (c :: read) rest
    else if escapes && c = '\\' then
      match rest with
      | [] => none
      | d :: rest => untilMarks mark escapes (d :: c :: read) rest
    else untilMarks mark escapes (c :: read) rest

def withoutFirstBreak : List Char → List Char
  | '\n' :: rest => rest
  | '\r' :: '\n' :: rest => rest
  | s => s

def apostrophe : Char := Char.ofNat 39

def lineText (mark : Char) : Scan String := do
  let escapes := mark = '"'
  let (inner, rest) ← untilMark mark escapes (← get)
  set rest
  if escapes then String.ofList <$> unescape? false inner.length inner
  else return String.ofList inner

/-- A text over several lines, after its three opening marks; a break right after them
does not belong to it. -/
def longText (mark : Char) : Scan String := do
  let escapes := mark = '"'
  let (inner, rest) ← untilMarks mark escapes [] (← get)
  set rest
  let inner := withoutFirstBreak inner
  if escapes then String.ofList <$> unescape? true inner.length inner
  else return String.ofList inner

def quotedText (mark : Char) : Scan String := do
  if ← accept [mark, mark, mark] then longText mark
  else
    expect mark
    lineText mark

/-! ## Keys -/

def isBareChar (c : Char) : Bool :=
  c.isAlphanum || c = '_' || c = '-'

def keyPart : Scan String := do
  skip isBlank
  let c ← next?
  let part ←
    if c = some '"' then expect '"'; lineText '"'
    else if c = some apostrophe then expect apostrophe; lineText apostrophe
    else
      let name ← takeWhile isBareChar
      guard !name.isEmpty
      pure (String.ofList name)
  skip isBlank
  return part

def keyParts : (fuel : Nat) → Scan Key
  | 0 => failure
  | fuel + 1 => do
    let part ← keyPart
    if ← accept ['.'] then return part :: (← keyParts fuel)
    else return [part]

def key : Scan Key := do
  keyParts (← get).length

/-! ## Values -/

private def isDateChar (c : Char) : Bool :=
  c.isDigit || "-:Tt .Zz+".toList.contains c

private def isFloatChar (c : Char) : Bool :=
  c.isDigit || "_.-+eE".toList.contains c

private def isBaseDigit (base : Nat) (c : Char) : Bool :=
  digitValue c < base || c = '_'

private def trimEnd (s : List Char) : List Char :=
  (s.reverse.dropWhile (· = ' ')).reverse

def decimalNumber (negative : Bool) : Scan Literal := do
  let digits ← takeWhile fun c => c.isDigit || c = '_'
  let more ← next?
  if more = some '.' || more = some 'e' || more = some 'E' then
    let spelling := digits ++ (← takeWhile isFloatChar)
    guard (isFloat spelling)
    return .float (String.ofList spelling)
  return .integer (← integer? negative digits)

def infinite : Scan (Option Literal) := do
  if ← accept "inf".toList then return some (.float "inf")
  if ← accept "nan".toList then return some (.float "nan")
  return none

def signedNumber (negative : Bool) : Scan Literal := do
  match ← infinite with
  | some value => return value
  | none => decimalNumber negative

def inBase (base : Nat) : Scan Literal := do
  return .integer (← integerIn? base (← takeWhile (isBaseDigit base)))

/-- A number or a moment; digits before a dash or a colon begin a moment. -/
def numberOrMoment : Scan Literal := do
  if ← accept ['0', 'x'] then inBase 16
  else if ← accept ['0', 'o'] then inBase 8
  else if ← accept ['0', 'b'] then inBase 2
  else
    let s ← get
    match (s.dropWhile Char.isDigit).head? with
    | some '-' | some ':' =>
      let spelling := trimEnd (← takeWhile isDateChar)
      guard (isMoment spelling)
      return .moment (String.ofList spelling)
    | _ => decimalNumber false

def scalar : Scan Literal := do
  match ← next? with
  | some c =>
    if c = '"' || c = apostrophe then return .text (← quotedText c)
    else if c.isDigit then numberOrMoment
    else if ← accept ['-'] then signedNumber true
    else if ← accept ['+'] then signedNumber false
    else if ← accept "true".toList then return .boolean true
    else if ← accept "false".toList then return .boolean false
    else match ← infinite with
      | some value => return value
      | none => failure
  | none => failure

mutual

def value : (fuel : Nat) → Scan Literal
  | 0 => failure
  | fuel + 1 => do
    skip isBlank
    if ← accept ['['] then return .array (← items fuel)
    else if ← accept ['\x7b'] then return .table (← pairs fuel)
    else scalar

def items : (fuel : Nat) → Scan (List Literal)
  | 0 => failure
  | fuel + 1 => do
    skipSpace fuel
    if ← accept [']'] then return []
    let item ← value fuel
    skipSpace fuel
    if ← accept [','] then return item :: (← items fuel)
    expect ']'
    return [item]

/-- The rest of a table written between braces; a comma may follow its last pair. -/
def pairs : (fuel : Nat) → Scan (List (Key × Literal))
  | 0 => failure
  | fuel + 1 => do
    skipSpace fuel
    if ← accept ['\x7d'] then return []
    let name ← key
    expect '='
    let item ← value fuel
    skipSpace fuel
    if ← accept [','] then return (name, item) :: (← pairs fuel)
    expect '\x7d'
    return [(name, item)]

end

/-! ## Files -/

def statement (fuel : Nat) : Scan Statement := do
  if ← accept ['[', '['] then
    let name ← key
    expect ']'
    expect ']'
    return .tableRow name
  if ← accept ['['] then
    let name ← key
    expect ']'
    return .table name
  let name ← key
  expect '='
  return .assign name (← value fuel)

def endOfLine : Scan Unit := do
  skip isBlank
  skipComment
  match ← next? with
  | none => pure ()
  | some c => guard (isBreak c)

def statements (depth : Nat) : (fuel : Nat) → Scan (List Statement)
  | 0 => failure
  | fuel + 1 => do
    skipSpace depth
    if (← next?).isNone then return []
    let first ← statement depth
    endOfLine
    return first :: (← statements depth fuel)

end Scan

/-! ## Characters -/

private def isControl (c : Char) : Bool :=
  (c.toNat < 0x20 && c ≠ '\t' && c ≠ '\n' && c ≠ '\r') || c.toNat = 0x7F

/-- No control characters, and carriage returns only before line feeds. -/
def admissible : List Char → Bool
  | [] => true
  | '\r' :: '\n' :: rest => admissible rest
  | c :: rest => c ≠ '\r' && !isControl c && admissible rest

def withoutMark : List UInt8 → List UInt8
  | 0xFF :: 0xFE :: rest => rest
  | 0xFE :: 0xFF :: rest => rest
  | 0xEF :: 0xBB :: 0xBF :: rest => rest
  | bytes => bytes

/-- The statements of a file.  Every character is used at most twice by nested values. -/
def parse? (bytes : List UInt8) : Option (List Statement) := do
  let text ← String.fromUTF8? ⟨(withoutMark bytes).toArray⟩
  let chars := text.toList
  guard (admissible chars)
  let fuel := 2 * chars.length + 2
  Scan.statements fuel fuel |>.run' chars

end ClassEngine.Toml
