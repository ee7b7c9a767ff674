/-!
# Little-endian words

Archives store numbers with the least significant byte first.
-/

namespace ClassEngine.LittleEndian

/-- The number in the given bytes; what lies outside counts as zero. -/
def read (data : Array UInt8) (pos : Nat) : (width : Nat) → Nat
  | 0 => 0
  | width + 1 => (data.getD pos 0).toNat + 256 * read data (pos + 1) width

end ClassEngine.LittleEndian
