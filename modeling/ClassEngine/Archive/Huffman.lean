/-!
# Canonical prefix codes

A code is given by one length for each symbol; zero means that the symbol has no
code word.  Words of one length follow each other in the order of their symbols,
after all shorter words.
-/

namespace ClassEngine.Archive

structure PrefixCode where
  /-- How many words there are of each length. -/
  counts : Array Nat
  /-- The symbols with words, shorter words first. -/
  symbols : Array Nat
  /-- How many bits are asked for before the first look at a word. -/
  ask : Nat

namespace PrefixCode

def longest : Nat := 15

private def share (counts : Array Nat) : Nat :=
  (List.range (longest + 1)).foldl
    (fun sum len => if len = 0 then sum else sum + counts.getD len 0 * Nat.pow 2 (longest - len)) 0

/-- The lengths must fill the code space, unless there is a single word, of one bit,
or no word at all. -/
def ofLengths? (lengths : List Nat) : Option PrefixCode :=
  let used := lengths.zipIdx.filter fun (len, _) => len ≠ 0
  let counts := (List.range (longest + 1)).toArray.map fun len => used.countP (·.1 = len)
  let symbols := (List.range (longest + 1)).flatMap fun len =>
    (used.filter (·.1 = len)).map (·.2)
  let ask := (used.map (·.1)).min?.getD 0
  let whole := share counts = Nat.pow 2 longest
  let single := used.length = 1 ∧ ask = 1
  if whole ∨ single ∨ used.isEmpty then some ⟨counts, symbols.toArray, ask⟩ else none

/-- The length and the symbol of the word that the bits begin with.  Words of the
current length start at `first`, and their symbols at `index`. -/
private def search (code : PrefixCode) (bitAt : Nat → Nat) (len first index value : Nat) :
    (tries : Nat) → Option (Nat × Nat)
  | 0 => none
  | tries + 1 =>
    let value := value + bitAt (len - 1)
    let count := code.counts.getD len 0
    if value < first + count then
      (code.symbols[index + (value - first)]?).map (len, ·)
    else
      code.search bitAt (len + 1) ((first + count) * 2) (index + count) (value * 2) tries

def word? (code : PrefixCode) (bitAt : Nat → Nat) : Option (Nat × Nat) :=
  code.search bitAt 1 0 0 0 longest

end PrefixCode

end ClassEngine.Archive
