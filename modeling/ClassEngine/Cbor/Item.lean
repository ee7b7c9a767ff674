import ClassEngine.BigEndian

/-!
# Concise binary objects

A data item is a number, a string of bytes or characters, an array, a map, or an
item with a tag.  `Item.encode` writes the shortest form: every head as short as
it can be and every length in front.
-/

namespace ClassEngine.Cbor

inductive Item where
  | unsigned (n : UInt64)
  /-- The number `-1 - n`. -/
  | negative (n : UInt64)
  | bytes (bs : List UInt8)
  | text (s : String)
  /-- A character string whose bytes are not well-formed. -/
  | badText (bs : List UInt8)
  | array (items : List Item)
  | map (entries : List (Item × Item))
  | tagged (tag : UInt64) (content : Item)
  | simple (value : UInt8)
  | float (bs : List UInt8)

/-- The kinds of items that have a head with an argument. -/
inductive Major where
  | unsigned | negative | bytes | text | array | map | tag | simple
  deriving DecidableEq, Repr

namespace Major

def code : Major → UInt8
  | .unsigned => 0
  | .negative => 1
  | .bytes => 2
  | .text => 3
  | .array => 4
  | .map => 5
  | .tag => 6
  | .simple => 7

def ofCode (n : UInt8) : Major :=
  match n.toNat with
  | 0 => .unsigned
  | 1 => .negative
  | 2 => .bytes
  | 3 => .text
  | 4 => .array
  | 5 => .map
  | 6 => .tag
  | _ => .simple

end Major

/-- The head of an item, with its argument in as few bytes as possible. -/
def head (m : Major) (n : Nat) : List UInt8 :=
  let first (info : UInt8) : UInt8 := m.code <<< 5 ||| info
  if n < 24 then [first (UInt8.ofNat n)]
  else if n < 0x100 then [first 24, UInt8.ofNat n]
  else if n < 0x10000 then first 25 :: BigEndian.bytes16 (UInt16.ofNat n)
  else if n < 0x100000000 then first 26 :: BigEndian.bytes32 (UInt32.ofNat n)
  else first 27 :: BigEndian.bytes64 (UInt64.ofNat n)

def floatHead (width : Nat) : UInt8 :=
  if width = 2 then 0xf9 else if width = 4 then 0xfa else 0xfb

mutual

def Item.encode : Item → List UInt8
  | .unsigned n => head .unsigned n.toNat
  | .negative n => head .negative n.toNat
  | .bytes bs => head .bytes bs.length ++ bs
  | .text s =>
    let bs := s.toUTF8.toList
    head .text bs.length ++ bs
  | .badText bs => head .text bs.length ++ bs
  | .array items => head .array items.length ++ encodeItems items
  | .map entries => head .map entries.length ++ encodeEntries entries
  | .tagged tag content => head .tag tag.toNat ++ content.encode
  | .simple value => head .simple value.toNat
  | .float bs => floatHead bs.length :: bs

def encodeItems : List Item → List UInt8
  | [] => []
  | i :: rest => i.encode ++ encodeItems rest

def encodeEntries : List (Item × Item) → List UInt8
  | [] => []
  | (key, value) :: rest => key.encode ++ value.encode ++ encodeEntries rest

end

end ClassEngine.Cbor
