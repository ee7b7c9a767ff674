import ClassEngine.Cbor.Item

/-!
# Reading concise binary objects

`decode?` accepts one item and nothing after it.  Items may be nested thirty-two
levels deep, where a tag directly on a tag counts as a level too, and an array or
map has at most `maxEntries` entries.  Strings, arrays and maps without a length
in front end at a break.
-/

namespace ClassEngine.Cbor

def maxLevels : Nat := 32

def maxEntries : Nat := 131072

abbrev Decoder := StateT (List UInt8) Option

def byte : Decoder UInt8 := fun
  | b :: rest => some (b, rest)
  | [] => none

def take (count : Nat) : Decoder (List UInt8) := fun bs =>
  if bs.length < count then none else some (bs.take count, bs.drop count)

def natOf (bs : List UInt8) : Nat := bs.foldl (fun n b => 256 * n + b.toNat) 0

/-- What follows from the low five bits of an initial byte. -/
inductive Argument where
  | value (n : Nat)
  /-- The items up to a break belong to this one. -/
  | untilBreak
  deriving DecidableEq, Repr

structure Head where
  major : Major
  info : UInt8
  argument : Argument
  deriving DecidableEq, Repr

def readHead : Decoder Head := do
  let b ← byte
  let major := Major.ofCode (b >>> 5)
  let info : UInt8 := b &&& 0x1f
  let value (width : Nat) : Decoder Head := do
    return ⟨major, info, .value (natOf (← take width))⟩
  match info.toNat with
  | 24 => value 1
  | 25 => value 2
  | 26 => value 4
  | 27 => value 8
  | 28 | 29 | 30 => failure
  | 31 => return ⟨major, info, .untilBreak⟩
  | n => return ⟨major, info, .value n⟩

def isBreak : List UInt8 → Bool
  | 0xff :: _ => true
  | _ => false

def times {α : Type} (x : Decoder α) : Nat → Decoder (List α)
  | 0 => return []
  | n + 1 => do
    let a ← x
    return a :: (← times x n)

/-- Repeats up to a break, at most as often as there are bytes. -/
def upToBreak {α : Type} (x : Decoder α) : Nat → Decoder (List α)
  | 0 => failure
  | n + 1 => do
    if isBreak (← get) then
      let _ ← byte
      return []
    else
      let a ← x
      return a :: (← upToBreak x n)

def textOf (bs : List UInt8) : Item :=
  match String.fromUTF8? ⟨bs.toArray⟩ with
  | some s => .text s
  | none => .badText bs

def chunk (major : Major) : Decoder (List UInt8) := do
  match ← readHead with
  | ⟨m, _, .value n⟩ => if m = major then take n else failure
  | _ => failure

def chunks (major : Major) : Decoder (List (List UInt8)) := do
  upToBreak (chunk major) ((← get).length + 1)

/-- Each piece of a character string has to be well-formed by itself. -/
def joinTexts (pieces : List (List UInt8)) : Item :=
  if pieces.all fun p => (String.fromUTF8? ⟨p.toArray⟩).isSome then textOf pieces.flatten
  else .badText pieces.flatten

def simpleItem (info : UInt8) (n : Nat) : Decoder Item :=
  match info.toNat with
  | 25 => return .float (BigEndian.bytes16 (UInt16.ofNat n))
  | 26 => return .float (BigEndian.bytes32 (UInt32.ofNat n))
  | 27 => return .float (BigEndian.bytes64 (UInt64.ofNat n))
  | 24 => if n < 32 then failure else return .simple (UInt8.ofNat n)
  | _ => return .simple (UInt8.ofNat n)

def pairUp : List Item → Option (List (Item × Item))
  | [] => some []
  | [_] => none
  | key :: value :: rest => (pairUp rest).map ((key, value) :: ·)

def startsWithTag : List UInt8 → Bool
  | b :: _ => b >>> 5 = Major.tag.code
  | [] => false

/-- An item within the given number of levels.  Each nesting takes a byte, so the
number of bytes is fuel enough. -/
def item : Nat → Nat → Decoder Item
  | 0, _ => failure
  | fuel + 1, levels => do
    let h ← readHead
    match h.major, h.argument with
    | .unsigned, .value n => return .unsigned (UInt64.ofNat n)
    | .negative, .value n => return .negative (UInt64.ofNat n)
    | .bytes, .value n => return .bytes (← take n)
    | .text, .value n => return textOf (← take n)
    | .bytes, .untilBreak => return .bytes (← chunks .bytes).flatten
    | .text, .untilBreak => return joinTexts (← chunks .text)
    | .array, .value n =>
      if levels = 0 || maxEntries < n then failure
      else return .array (← times (item fuel (levels - 1)) n)
    | .map, .value n =>
      if levels = 0 || maxEntries < n then failure
      else
        let entry : Decoder (Item × Item) := do
          let key ← item fuel (levels - 1)
          return (key, ← item fuel (levels - 1))
        return .map (← times entry n)
    | .array, .untilBreak =>
      if levels = 0 then failure
      else
        let items ← upToBreak (item fuel (levels - 1)) ((← get).length + 1)
        if maxEntries < items.length then failure else return .array items
    | .map, .untilBreak =>
      if levels = 0 then failure
      else
        let items ← upToBreak (item fuel (levels - 1)) ((← get).length + 1)
        match pairUp items with
        | some entries => if maxEntries < entries.length then failure else return .map entries
        | none => failure
    | .tag, .value n =>
      if startsWithTag (← get) then
        if levels = 0 then failure
        else return .tagged (UInt64.ofNat n) (← item fuel (levels - 1))
      else return .tagged (UInt64.ofNat n) (← item fuel levels)
    | .simple, .value n => simpleItem h.info n
    | _, .untilBreak => failure

def decode? (bs : List UInt8) : Option Item :=
  match item (bs.length + 1) maxLevels bs with
  | some (i, []) => some i
  | _ => none

end ClassEngine.Cbor
