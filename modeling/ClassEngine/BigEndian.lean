/-!
# Big-endian words

Every multi-byte number of a class file and of its code is stored with the most
significant byte first.
-/

namespace ClassEngine.BigEndian

def join16 (a b : UInt8) : UInt16 :=
  a.toUInt16 <<< 8 ||| b.toUInt16

def join32 (a b c d : UInt8) : UInt32 :=
  a.toUInt32 <<< 24 ||| b.toUInt32 <<< 16 ||| c.toUInt32 <<< 8 ||| d.toUInt32

def join64 (high low : UInt32) : UInt64 :=
  high.toUInt64 <<< 32 ||| low.toUInt64

def bytes16 (w : UInt16) : List UInt8 :=
  [(w >>> 8).toUInt8, w.toUInt8]

def bytes32 (w : UInt32) : List UInt8 :=
  [(w >>> 24).toUInt8, (w >>> 16).toUInt8, (w >>> 8).toUInt8, w.toUInt8]

def bytes64 (w : UInt64) : List UInt8 :=
  bytes32 (w >>> 32).toUInt32 ++ bytes32 w.toUInt32

def read16? (code : Array UInt8) (pos : Nat) : Option UInt16 := do
  let a ← code[pos]?
  let b ← code[pos + 1]?
  return join16 a b

def read32? (code : Array UInt8) (pos : Nat) : Option UInt32 := do
  let a ← code[pos]?
  let b ← code[pos + 1]?
  let c ← code[pos + 2]?
  let d ← code[pos + 3]?
  return join32 a b c d

end ClassEngine.BigEndian
