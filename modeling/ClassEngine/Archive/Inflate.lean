import ClassEngine.Archive.Huffman
import ClassEngine.LittleEndian

/-!
# Inflating compressed data

Compressed data is a sequence of blocks: stored bytes, or symbols of a fixed or a
transmitted prefix code that stand for bytes and for copies of earlier output.
Bits are taken from the low end of each byte.  A failure leaves the output made
before it; damaged data is reported with the number of bytes fetched so far.
-/

namespace ClassEngine.Archive

inductive InflateError where
  | corrupt (fetched : Nat)
  | cut
  deriving DecidableEq, Repr

structure Inflater where
  data : Array UInt8
  /-- Bits used. -/
  bit : Nat
  /-- Bytes fetched, of which the last few may hold unused bits. -/
  fetched : Nat
  output : Array UInt8

abbrev Inflate := ExceptT InflateError (StateM Inflater)

namespace Inflate

def corrupt {α : Type} : Inflate α := do
  throw (.corrupt (← get).fetched)

def need (bits : Nat) : Inflate Unit := do
  let s ← get
  let bytes := max s.fetched ((s.bit + bits + 7) / 8)
  if s.data.size < bytes then throw .cut
  set { s with fetched := bytes }

/-- The bits from the current one on; those not fetched yet count as zero. -/
def bitAt (s : Inflater) (i : Nat) : Nat :=
  let place := s.bit + i
  if place / 8 < s.fetched then ((s.data.getD (place / 8) 0).toNat >>> (place % 8)) % 2 else 0

def take (bits : Nat) : Inflate Nat := do
  need bits
  let s ← get
  set { s with bit := s.bit + bits }
  return (List.range bits).foldr (fun i n => bitAt s i + 2 * n) 0

/-- Looks for a word among the bits at hand, and fetches more while it is longer. -/
def word (code : PrefixCode) (ask : Nat) : (tries : Nat) → Inflate Nat
  | 0 => corrupt
  | tries + 1 => do
    need ask
    let s ← get
    match code.word? (bitAt s) with
    | none => corrupt
    | some (len, value) =>
      if s.bit + len ≤ 8 * s.fetched then
        set { s with bit := s.bit + len }
        return value
      else
        word code len tries

def symbol (code : PrefixCode) : Inflate Nat :=
  word code code.ask (PrefixCode.longest + 1)

def emit (b : UInt8) : Inflate Unit :=
  modify fun s => { s with output := s.output.push b }

def copy (distance : Nat) : (length : Nat) → Inflate Unit
  | 0 => pure ()
  | length + 1 => do
    let s ← get
    emit (s.output.getD (s.output.size - distance) 0)
    copy distance length

/-! ## Blocks of symbols -/

def endOfBlock : Nat := 256
def lengthSymbols : Nat := 286
def distanceSymbols : Nat := 30

/-- The length of a copy: eight symbols without extra bits, then four symbols for
each number of extra bits, and one symbol for the longest copy. -/
def copyLength (value : Nat) : Inflate Nat := do
  let k := value - 257
  if k < 8 then return k + 3
  if k = 28 then return 258
  let extra := k / 4 - 1
  return (4 + k % 4) * Nat.pow 2 extra + 3 + (← take extra)

/-- The distance of a copy: four symbols without extra bits, then two for each
number of extra bits. -/
def copyDistance (value : Nat) : Inflate Nat := do
  if value < 4 then return value + 1
  if distanceSymbols ≤ value then corrupt
  let extra := (value - 2) / 2
  return (2 + value % 2) * Nat.pow 2 extra + 1 + (← take extra)

def distanceSymbol : Option PrefixCode → Inflate Nat
  | some code => symbol code
  | none => do
    let n ← take 5
    return (List.range 5).foldl (fun m i => 2 * m + (n >>> i) % 2) 0

def symbols (literals : PrefixCode) (distances : Option PrefixCode) : (fuel : Nat) → Inflate Unit
  | 0 => corrupt
  | fuel + 1 => do
    let value ← symbol literals
    if value < endOfBlock then
      emit value.toUInt8
      symbols literals distances fuel
    else if value = endOfBlock then
      return
    else if lengthSymbols ≤ value then
      corrupt
    else
      let length ← copyLength value
      let distance ← copyDistance (← distanceSymbol distances)
      if (← get).output.size < distance then corrupt
      copy distance length
      symbols literals distances fuel

def fixedLengths : List Nat :=
  List.replicate 144 8 ++ List.replicate 112 9 ++ List.replicate 24 7 ++ List.replicate 8 8

/-! ## Transmitted codes -/

def lengthOrder : List Nat :=
  [16, 17, 18, 0, 8, 7, 9, 6, 10, 5, 11, 4, 12, 3, 13, 2, 14, 1, 15]

/-- Lengths are sent one by one, or as runs of the latest length or of zero. -/
def codeLengths (code : PrefixCode) (wanted : Nat) (sent : List Nat) :
    (fuel : Nat) → Inflate (List Nat)
  | 0 => corrupt
  | fuel + 1 => do
    if wanted ≤ sent.length then return sent.reverse
    let value ← symbol code
    if value < 16 then
      codeLengths code wanted (value :: sent) fuel
    else
      let (repeated, least, bits) ←
        if value = 16 then
          match sent with
          | [] => corrupt
          | latest :: _ => pure (latest, 3, 2)
        else if value = 17 then pure (0, 3, 3)
        else pure (0, 11, 7)
      let run := least + (← take bits)
      if wanted < sent.length + run then corrupt
      codeLengths code wanted (List.replicate run repeated ++ sent) fuel

def demand (code : Option PrefixCode) : Inflate PrefixCode :=
  match code with
  | some code => pure code
  | none => corrupt

/-- The codes of a block that brings its own.  Every block ends with its end symbol,
and a block that is not the last is followed by at least ten bits, so that many are
asked for at once. -/
def sentCodes (last : Bool) : Inflate (PrefixCode × PrefixCode) := do
  need 14
  let literalCount := (← take 5) + 257
  if lengthSymbols < literalCount then corrupt
  let distanceCount := (← take 5) + 1
  if distanceSymbols < distanceCount then corrupt
  let orderCount := (← take 4) + 4
  let sent ← (lengthOrder.take orderCount).mapM fun place => return (place, ← take 3)
  let lengths := (List.range lengthOrder.length).map fun place => (sent.lookup place).getD 0
  let code ← demand (PrefixCode.ofLengths? lengths)
  let all ← codeLengths code (literalCount + distanceCount) [] (literalCount + distanceCount + 1)
  let literals ← demand (PrefixCode.ofLengths? (all.take literalCount))
  let distances ← demand (PrefixCode.ofLengths? (all.drop literalCount))
  let ask := max literals.ask (all.getD endOfBlock 0)
  return ({ literals with ask := if last then ask else ask + 10 }, distances)

/-! ## Streams of blocks -/

def stored : Inflate Unit := do
  let s ← get
  let start := (s.bit + 7) / 8
  if s.data.size < start + 4 then throw .cut
  let s := { s with bit := 8 * (start + 4), fetched := start + 4 }
  set s
  let count := LittleEndian.read s.data start 2
  if count + LittleEndian.read s.data (start + 2) 2 ≠ 0xFFFF then corrupt
  let finish := start + 4 + count
  set { s with
    bit := 8 * finish, fetched := finish,
    output := s.output ++ s.data.extract (start + 4) finish }
  if s.data.size < finish then throw .cut

def blocks (size : Nat) : (fuel : Nat) → Inflate Unit
  | 0 => corrupt
  | fuel + 1 => do
    need 3
    let last := (← take 1) = 1
    match ← take 2 with
    | 0 => stored
    | 1 => symbols (← demand (PrefixCode.ofLengths? fixedLengths)) none size
    | 2 =>
      let (literals, distances) ← sentCodes last
      symbols literals (some distances) size
    | _ => corrupt
    if last then return
    blocks size fuel

end Inflate

/-- The output, and what ended it early.  Every symbol and every block uses at least
one bit, so the number of bits bounds them all. -/
def inflate (data : Array UInt8) : Array UInt8 × Option InflateError :=
  let size := 8 * data.size + 1
  match (Inflate.blocks size size).run ⟨data, 0, 0, #[]⟩ with
  | (.ok _, s) => (s.output, none)
  | (.error e, s) => (s.output, some e)

end ClassEngine.Archive
