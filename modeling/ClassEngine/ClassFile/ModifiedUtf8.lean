import ClassEngine.Text.Digits

/-!
# Text in class files

Text is stored as UTF-16 units, each in one to three bytes.  A zero unit takes
two bytes, so that no stored text holds a zero byte, and a character beyond the
basic plane takes two units.
-/

namespace ClassEngine.ClassFile.ModifiedUtf8

inductive DecodeError where
  | zeroByte
  | truncatedPair
  | truncatedTriple
  | invalidByte (b : UInt8)
  deriving DecidableEq, Repr

def DecodeError.message : DecodeError → String
  | .zeroByte => "NUL byte in Utf8 entry"
  | .truncatedPair => "truncated 2-byte sequence"
  | .truncatedTriple => "truncated 3-byte sequence"
  | .invalidByte b => s!"invalid byte 0x{Text.hexLower 2 b.toNat} in Utf8 entry"

def isContinuation (b : UInt8) : Bool := b &&& 0xc0 = 0x80

def pairUnit (a b : UInt8) : UInt16 :=
  (a &&& 0x1f).toUInt16 <<< 6 ||| (b &&& 0x3f).toUInt16

def tripleUnit (a b c : UInt8) : UInt16 :=
  (a &&& 0x0f).toUInt16 <<< 12 ||| (b &&& 0x3f).toUInt16 <<< 6 ||| (c &&& 0x3f).toUInt16

def decodeUnits : List UInt8 → Except DecodeError (List UInt16)
  | [] => .ok []
  | a :: rest =>
    if a = 0 then .error .zeroByte
    else if a < 0x80 then do return a.toUInt16 :: (← decodeUnits rest)
    else if a &&& 0xe0 = 0xc0 then
      match rest with
      | b :: rest =>
        if isContinuation b then do return pairUnit a b :: (← decodeUnits rest)
        else .error .truncatedPair
      | [] => .error .truncatedPair
    else if a &&& 0xf0 = 0xe0 then
      match rest with
      | b :: c :: rest =>
        if isContinuation b && isContinuation c then do
          return tripleUnit a b c :: (← decodeUnits rest)
        else .error .truncatedTriple
      | _ => .error .truncatedTriple
    else .error (.invalidByte a)

def isHighSurrogate (u : UInt16) : Bool := 0xd800 ≤ u && u < 0xdc00

def isLowSurrogate (u : UInt16) : Bool := 0xdc00 ≤ u && u < 0xe000

/-- Stands in for a surrogate without its partner. -/
def replacement : Char := Char.ofNat 0xfffd

def joinSurrogates (high low : UInt16) : Char :=
  Char.ofNat (0x10000 + (high.toNat - 0xd800) * 0x400 + (low.toNat - 0xdc00))

def unitsToChars : List UInt16 → List Char
  | [] => []
  | u :: v :: rest =>
    if isHighSurrogate u && isLowSurrogate v then joinSurrogates u v :: unitsToChars rest
    else if isHighSurrogate u || isLowSurrogate u then replacement :: unitsToChars (v :: rest)
    else Char.ofNat u.toNat :: unitsToChars (v :: rest)
  | [u] =>
    if isHighSurrogate u || isLowSurrogate u then [replacement] else [Char.ofNat u.toNat]

/-- Bytes that all stand for themselves need no units. -/
def decode (bs : List UInt8) : Except DecodeError String := do
  if bs.all fun b => b ≠ 0 && b < 0x80 then
    return String.ofList (bs.map fun b => Char.ofNat b.toNat)
  return String.ofList (unitsToChars (← decodeUnits bs))

def charUnits (c : Char) : List UInt16 :=
  if c.toNat < 0x10000 then [UInt16.ofNat c.toNat]
  else
    let above := c.toNat - 0x10000
    [UInt16.ofNat (0xd800 + above / 0x400), UInt16.ofNat (0xdc00 + above % 0x400)]

def encodeUnit (u : UInt16) : List UInt8 :=
  if u ≠ 0 ∧ u < 0x80 then [u.toUInt8]
  else if u < 0x800 then [(u >>> 6).toUInt8 ||| 0xc0, (u &&& 0x3f).toUInt8 ||| 0x80]
  else
    [(u >>> 12).toUInt8 ||| 0xe0, (u >>> 6 &&& 0x3f).toUInt8 ||| 0x80,
      (u &&& 0x3f).toUInt8 ||| 0x80]

def encode (text : String) : List UInt8 :=
  text.toList.flatMap fun c => (charUnits c).flatMap encodeUnit

end ClassEngine.ClassFile.ModifiedUtf8
