import ClassEngine.Cbor.Decode
import ClassEngine.Cbor.Shape

/-!
# Libraries for concise binary objects

A library writes values as bytes and reads them back, by their shapes.  The one that is built in
reads what `decode?` decodes: the first of several entries with one key counts, a key may also be
spelled in characters, other keys are ignored, and what is missing or null stays empty.
-/

namespace ClassEngine.Cbor

structure Library where
  marshal : (s : Shape) → s.Value → Option (List UInt8)
  unmarshal : (s : Shape) → List UInt8 → Option s.Value

namespace Read

def isNull : Item → Bool
  | .simple v => v = 22 || v = 23
  | _ => false

def tagAllows (tag : UInt64) (content : Item) : Bool :=
  match tag.toNat, content with
  | 0, .text _ | 0, .badText _ => true
  | 0, _ => false
  | 1, .unsigned _ | 1, .negative _ | 1, .float _ => true
  | 1, _ => false
  | 2, .bytes _ | 3, .bytes _ => true
  | 2, _ | 3, _ => false
  | _, _ => true

def untagged : Item → Option Item
  | .tagged tag content =>
    if tagAllows tag content then
      if tag = 2 || tag = 3 then some (.tagged tag content) else untagged content
    else none
  | i => some i

/-- A number up to `limit`; simple values count as numbers. -/
def number? (limit : Nat) (i : Item) : Option Nat := do
  let n ← match ← untagged i with
    | .unsigned n => some n.toNat
    | .simple v =>
      if v = 20 || v = 21 then none
      else some (if isNull (.simple v) then 0 else v.toNat)
    | .tagged 2 (.bytes bs) => some (natOf bs)
    | _ => none
  if n ≤ limit then some n else none

def word? (i : Item) : Option UInt16 := (number? 65535 i).map UInt16.ofNat

def text? (i : Item) : Option String := do
  match ← untagged i with
  | .text s => some s
  | i => if isNull i then some "" else none

def array? {α : Type} (element? : Item → Option α) (i : Item) : Option (List α) := do
  match ← untagged i with
  | .array items => items.mapM element?
  | i => if isNull i then some [] else none

/-- Bytes may also be given one by one. -/
def bytes? (i : Item) : Option (Option (List UInt8)) := do
  match ← untagged i with
  | .bytes bs | .tagged _ (.bytes bs) => some (some bs)
  | .array items => some (some ((← items.mapM (number? 255)).map UInt8.ofNat))
  | i => if isNull i then some none else none

/-- The number that a key stands for; a key that is neither a number nor
characters makes the map unreadable. -/
def key? : Item → Option (Option UInt64)
  | .unsigned n => some (some n)
  | .negative n => if n < 0x8000000000000000 then some none else none
  | .text s => some (((List.range 11).find? fun n => toString n = s).map UInt64.ofNat)
  | _ => none

def entries? (i : Item) : Option (List (UInt64 × Item)) := do
  match ← untagged i with
  | .map entries =>
    let keyed ← entries.mapM fun (k, v) => do return (← key? k).map ((·, v))
    return keyed.filterMap id
  | i => if isNull i then some [] else none

/-- The value of a member, or what it is when it is missing. -/
def member? {α : Type} (entries : List (UInt64 × Item)) (key : UInt64) (value? : Item → Option α)
    (missing : α) : Option α :=
  match entries.lookup key with
  | some i => value? i
  | none => some missing

mutual

def value? : (s : Shape) → Item → Option s.Value
  | .word, i => word? i
  | .text, i => text? i
  | .bytes, i => bytes? i
  | .list s, i => array? (value? s) i
  | .pointer s, i => if isNull i then some (none : Option s.Value) else (value? s i).map some
  | .record, i => (entries? i).map fun _ => ()
  | .member key _ s rest, i => do
    let entries ← entries? i
    return (← member? entries key (value? s) s.zero, ← members? rest entries)

/-- The first entry of each key counts. -/
def members? : (s : Shape) → List (UInt64 × Item) → Option s.Value
  | .member key _ s rest, entries => do
    return (← member? entries key (value? s) s.zero, ← members? rest entries)
  | s, _ => some s.zero

end

end Read

def standard : Library where
  marshal s value := some (s.item value).encode
  unmarshal s bytes := (decode? bytes).bind (Read.value? s)

end ClassEngine.Cbor
