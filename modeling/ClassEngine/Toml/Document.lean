import ClassEngine.Toml.Grammar

/-!
# Documents

Statements build a tree of tables.  A table that was only implied, by a header below
it or by a dotted key, may be stated once; any other key is given once.
-/

namespace ClassEngine.Toml

inductive Value where
  | text (s : String)
  | integer (n : Int)
  | float (spelling : String)
  | boolean (b : Bool)
  | moment (spelling : String)
  | array (items : List Value)
  | table (entries : List (String × Value))
  /-- Tables that were added one by one; the latest is the one that keys go to. -/
  | rows (latest : List (String × Value)) (earlier : List (List (String × Value)))

abbrev Table := List (String × Value)

namespace Table

/-- Replaces the value of a key in its place, or adds the key at the end. -/
def set (name : String) (v : Value) : Table → Table
  | [] => [(name, v)]
  | (n, w) :: rest => if n = name then (n, v) :: rest else (n, w) :: set name v rest

/-- The table that a key leads to; a key of rows leads to the latest row. -/
def at? : Key → Table → Option Table
  | [], t => some t
  | name :: rest, t =>
    match t.lookup name with
    | some (.table inner) => at? rest inner
    | some (.rows latest _) => at? rest latest
    | _ => none

def update (f : Table → Table) : Key → Table → Option Table
  | [], t => some (f t)
  | name :: rest, t =>
    match t.lookup name with
    | some (.table inner) => do return t.set name (.table (← update f rest inner))
    | some (.rows latest earlier) => do
      return t.set name (.rows (← update f rest latest) earlier)
    | _ => none

end Table

structure Draft where
  root : Table := []
  /-- Keys in the order of the file, the latest first. -/
  keys : List Key := []
  /-- Tables that were only implied so far. -/
  implied : List Key := []
  /-- Keys whose latest value is an array. -/
  arrays : List Key := []

namespace Draft

def imply (d : Draft) (key : Key) : Draft :=
  { d with implied := key :: d.implied }

def settle (d : Draft) (key : Key) : Draft :=
  { d with implied := d.implied.filter (· ≠ key) }

/-- The key under which the kind of a value is remembered: an empty name inside a table
counts as the table. -/
private def kindKey (context : Key) (name : String) : Key :=
  if name = "" ∧ context ≠ [] then context else context ++ [name]

def noteKind (d : Draft) (key : Key) (isArray : Bool) : Draft :=
  let others := d.arrays.filter (· ≠ key)
  { d with arrays := if isArray then key :: others else others }

def store (d : Draft) (context : Key) (name : String) (v : Value) : Option Draft := do
  return { d with root := ← Table.update (·.set name v) context d.root }

/-- Gives a key its value.  Of a key that is there already only an implied one may be
given again: an array then replaces it, and a table stays as it is. -/
def put (d : Draft) (context : Key) (name : String) (v : Value) : Option Draft := do
  let key := context ++ [name]
  let t ← Table.at? context d.root
  if (t.lookup name).isNone then d.store context name v
  else if d.implied.contains key then
    let d := d.settle key
    if d.arrays.contains key then d.store context name v else some d
  else none

/-- Makes sure that a key leads to a table, which is implied if it is new. -/
def reach (d : Draft) (key : Key) : Option Draft := do
  let context := key.dropLast
  let name ← key.getLast?
  let t ← Table.at? context d.root
  match t.lookup name with
  | none => (d.imply key).store context name (.table [])
  | some (.table _) | some (.rows _ _) => some d
  | some _ => none

private def above (key : Key) : List Key :=
  (List.range (key.length - 1)).map fun i => key.take (i + 1)

def openTable (d : Draft) (key : Key) (row : Bool) : Option Draft := do
  let d ← (above key).foldlM reach d
  let context := key.dropLast
  let name ← key.getLast?
  if row then
    let t ← Table.at? context d.root
    match t.lookup name with
    | none => d.store context name (.rows [] [])
    | some (.rows latest earlier) => d.store context name (.rows [] (latest :: earlier))
    | some _ => none
  else
    d.put context name (.table [])

def openImplied (d : Draft) (context : Key) (parents : Key) : Option Draft :=
  (List.range parents.length).foldlM
    (fun d i =>
      let key := context ++ parents.take (i + 1)
      (d.imply key).openTable key false) d

def announce (d : Draft) (context : Key) (key : Key) : Option Draft := do
  let d ← d.openImplied context key.dropLast
  return { d with keys := (context ++ key) :: d.keys }

def isArray : Value → Bool
  | .array _ => true
  | _ => false

mutual

/-- The value of a literal under a key; tables inside it are built in the draft. -/
def evaluate (context : Key) (name : String) (row : Bool) :
    Literal → Draft → Option (Value × Draft)
  | .text s, d => some (.text s, d)
  | .integer n, d => some (.integer n, d)
  | .float s, d => some (.float s, d)
  | .boolean b, d => some (.boolean b, d)
  | .moment s, d => some (.moment s, d)
  | .array items, d => do
    let (values, d) ← evaluateItems context name items (d.noteKind (kindKey context name) true)
    return (.array values, d)
  | .table pairs, d => do
    let here := context ++ [name]
    let d ← (d.imply here).openTable here row
    let d ← evaluatePairs here pairs d
    return (.table ((Table.at? here d.root).getD []), d)

def evaluateItems (context : Key) (name : String) :
    List Literal → Draft → Option (List Value × Draft)
  | [], d => some ([], d)
  | item :: rest, d => do
    let (v, d) ← evaluate context name true item d
    let (vs, d) ← evaluateItems context name rest d
    return (v :: vs, d)

def evaluatePairs (context : Key) : List (Key × Literal) → Draft → Option Draft
  | [], d => some d
  | (key, literal) :: rest, d => do
    let name ← key.getLast?
    let inner := context ++ key.dropLast
    let d ← d.announce context key
    let (v, d) ← evaluate inner name false literal d
    let d ← d.put inner name v
    evaluatePairs context rest (d.noteKind (kindKey inner name) (isArray v))

end

def state (context : Key) (d : Draft) : Statement → Option (Key × Draft)
  | .table key => do
    let d ← d.openTable key false
    return (key, { d.noteKind key false with keys := key :: d.keys })
  | .tableRow key => do
    let d ← d.openTable key true
    return (key, { d.noteKind key false with keys := key :: d.keys })
  | .assign key literal => do
    return (context, ← evaluatePairs context [(key, literal)] d)

end Draft

structure Document where
  root : Table
  /-- The keys of all headers and values, in the order of the file. -/
  keys : List Key

def Document.ofStatements? (statements : List Statement) : Option Document := do
  let (_, d) ← statements.foldlM (fun (context, d) s => Draft.state context d s) ([], {})
  return ⟨d.root, d.keys.reverse⟩

def Document.ofBytes? (bytes : List UInt8) : Option Document := do
  Document.ofStatements? (← parse? bytes)

end ClassEngine.Toml
