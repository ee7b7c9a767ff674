import ClassEngine.Cbor.Item

/-!
# Shapes of values

What a value is made of decides the item it is written as.  A record is a map with numbers as keys,
and a member that is tagged so is left out when it is empty.
-/

namespace ClassEngine.Cbor

/-- What a value is made of.  A record has its members one after another. -/
inductive Shape where
  | word
  | text
  | bytes
  | list (element : Shape)
  | pointer (target : Shape)
  | record
  | member (key : UInt64) (omitEmpty : Bool) (shape rest : Shape)
  deriving DecidableEq, Repr

def null : Item := .simple 22

def keyed (entries : List (UInt64 × Item)) : Item :=
  .map (entries.map fun e => (.unsigned e.1, e.2))

def entry (key : UInt64) (leftOut : Bool) (value : Item) : List (UInt64 × Item) :=
  if leftOut then [] else [(key, value)]

namespace Shape

/-- Bytes and pointers may be missing; a list that is missing is the one without elements. -/
@[reducible]
def Value : Shape → Type
  | .word => UInt16
  | .text => String
  | .bytes => Option (List UInt8)
  | .list s => List s.Value
  | .pointer s => Option s.Value
  | .record => Unit
  | .member _ _ s rest => s.Value × rest.Value

def zero : (s : Shape) → s.Value
  | .word => (0 : UInt16)
  | .text => ""
  | .bytes => (none : Option (List UInt8))
  | .list s => ([] : List s.Value)
  | .pointer s => (none : Option s.Value)
  | .record => ()
  | .member _ _ s rest => (s.zero, rest.zero)

def isEmpty : (s : Shape) → s.Value → Bool
  | .word, n => UInt16.toNat n == 0
  | .text, t => String.isEmpty t
  | .bytes, bytes? => (bytes?.getD ([] : List UInt8)).isEmpty
  | .list _, values => values.isEmpty
  | .pointer _, value? => value?.isNone
  | .record, _ | .member .., _ => false

mutual

def item : (s : Shape) → s.Value → Item
  | .word, n => .unsigned (UInt16.toUInt64 n)
  | .text, t => .text t
  | .bytes, bytes? => (bytes?.map Item.bytes).getD null
  | .list s, values => .array (values.map s.item)
  | .pointer s, value? => (value?.map s.item).getD null
  | .record, _ => keyed []
  | .member key omitEmpty s rest, (value, values) =>
    keyed (entry key (omitEmpty && s.isEmpty value) (s.item value) ++ rest.entries values)

def entries : (s : Shape) → s.Value → List (UInt64 × Item)
  | .member key omitEmpty s rest, (value, values) =>
    entry key (omitEmpty && s.isEmpty value) (s.item value) ++ rest.entries values
  | _, _ => []

end

end Shape

end ClassEngine.Cbor
